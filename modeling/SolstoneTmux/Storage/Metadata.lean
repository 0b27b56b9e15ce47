import SolstoneTmux.Files
import SolstoneTmux.Serialize

/-!
# Segment metadata and the stream directory

A stream directory holds, for each segment that is still open, the directory `<stem>.incomplete`
with the session files and the metadata file `<stem>.incomplete.meta`; a finalized segment is a
directory `<stem>_<length>` with its zone record `<stem>_<length>.zone.json`.

The two records the program writes as JSON are kept as the records themselves (`Contents`): what
`to_bytes` wrote is read back as it was. Any other content is bytes, and `Decoder` says what
`serde_json` makes of those; of a frame it must read the frame id back.
-/

namespace SolstoneTmux

open Foundations

/-- `MetadataLifecycle`. -/
inductive MetadataLifecycle
  | creating
  | opened
  | finalizing
  deriving DecidableEq

/-- `SessionMetadata`. -/
structure SessionMetadata where
  session : Str
  filename : Str
  lastFrameId : ℕ
  durableOffset : ℕ
  deriving DecidableEq

/-- `SegmentMetadata`. -/
structure SegmentMetadata where
  schemaVersion : ℕ
  lifecycle : MetadataLifecycle
  incompleteDir : Str
  finalizedDir : Str
  startWallUnixNanos : ℤ
  localOffsetSeconds : ℤ
  tz : Option Str
  elapsedNanos : ℕ
  lastDurableFrameId : ℕ
  durableFrameCount : ℕ
  hasDurableFrames : Bool
  activityDurableOffset : ℕ
  sessions : Table Str SessionMetadata
  deriving DecidableEq

/-- `SegmentMetadata::SCHEMA_VERSION`. -/
def SegmentMetadata.SCHEMA_VERSION : ℕ := 1

/-- `CaptureTime`, the zone record of a finalized segment. -/
structure CaptureTime where
  tz : Option Str
  utcOffsetSeconds : ℤ
  deriving DecidableEq

/-- The content of a file in a stream directory: a record the program wrote, or any bytes. -/
inductive Contents
  | bytes (b : Bytes)
  | metadata (m : SegmentMetadata)
  | captureTime (t : CaptureTime)
  deriving DecidableEq

/-- The directory of one segment. Of what is not a regular file only the length is read. -/
abbrev SegmentDir := Table OsName (Node Bytes ℕ)

/-- The directory of one stream on one day. -/
abbrev StreamDir := Table OsName (Node Contents SegmentDir)

/-- The length `Metadata::len` reports for a member of a segment. -/
def Node.memberLength : Node Bytes ℕ → ℕ
  | .file b => b.length
  | .directory n => n
  | .special n => n

/-! ## Decoding -/

/-- A `serde_json::Value`. A number carries its value when `as_u64` has one. -/
inductive Json
  | null
  | bool (b : Bool)
  | number (asU64 : Option ℕ)
  | string (s : Str)
  | array (items : List Json)
  | object (fields : List (Str × Json))

namespace Json

/-- `Value::get` with a key. -/
def get (key : Str) : Json → Option Json
  | object fields => (fields.find? fun f => f.1 = key).map Prod.snd
  | _ => none

/-- `Value::as_u64`. -/
def asU64 : Json → Option ℕ
  | number n => n
  | _ => none

end Json

/-- What `serde_json` reads from bytes that this program did not just serialize. The law: the
`frame_id` of a serialized frame is read back, whatever was captured; its other numbers have 32 bits
or are the text of a double. -/
structure Decoder where
  metadataFromSlice : Bytes → Option SegmentMetadata
  valueFromSlice : Bytes → Option Json
  frameId_of_envelope : ∀ (capture : CaptureResult) (frameId : ℕ) (timestamp : F64Text),
    frameId < 2 ^ 64 →
      ((valueFromSlice (utf8 (envelope capture frameId timestamp))).bind
        (Json.get "frame_id".toList)).bind Json.asU64 = some frameId

/-- The number after the key `frame_id` at the start of an object. -/
def leadingFrameId (b : Bytes) : Option ℕ :=
  (stripPrefix "\x7b\"frame_id\": ".toList (b.map fun x => Char.ofNat x.toNat)).bind fun rest =>
    (splitOnce ',' rest).map fun (digits, _) => digitsValue digits

theorem jsonObject_head (key value : Str) (field : Str × Str) (fields : List (Str × Str)) :
    ∃ rest, jsonObject ((key, value) :: field :: fields) =
      '{' :: (jsonString key ++ ": ".toList ++ value) ++ ',' :: rest :=
  ⟨' ' :: (commaSeparated ((field :: fields).map fun (k, v) => jsonString k ++ ": ".toList ++ v) ++
    ['}']), by simp [jsonObject, commaSeparated]⟩

theorem leadingFrameId_envelope (capture : CaptureResult) (frameId : ℕ) (timestamp : F64Text) :
    leadingFrameId (utf8 (envelope capture frameId timestamp)) = some frameId := by
  have hkey : jsonString "frame_id".toList = "\"frame_id\"".toList := by decide
  obtain ⟨rest, hrest⟩ : ∃ rest, envelope capture frameId timestamp =
      '{' :: (jsonString "frame_id".toList ++ ": ".toList ++ decimal frameId) ++ ',' :: rest :=
    jsonObject_head _ _ _ _
  have hstart : '{' :: (jsonString "frame_id".toList ++ ": ".toList ++ decimal frameId) =
      "\x7b\"frame_id\": ".toList ++ decimal frameId := by
    rw [hkey]
    rfl
  have hprefix : ("\x7b\"frame_id\": ".toList.all fun c => c.toNat < 128) = true := rfl
  have hascii : ∀ c ∈ "\x7b\"frame_id\": ".toList ++ decimal frameId, c.toNat < 128 := by
    intro c hc
    rcases List.mem_append.mp hc with hc | hc
    · simpa using List.all_eq_true.mp hprefix c hc
    · have := isDigit_of_mem_decimal hc
      rw [isDigit, Bool.and_eq_true, decide_eq_true_eq, decide_eq_true_eq] at this
      omega
  have hcomma : ',' ∉ decimal frameId := fun h => absurd (isDigit_of_mem_decimal h) (by decide)
  have hmap : ("\x7b\"frame_id\": ".toList ++ decimal frameId).map
      (fun c => Char.ofNat (UInt8.ofNat c.toNat).toNat) =
        "\x7b\"frame_id\": ".toList ++ decimal frameId := by
    conv_rhs => rw [← List.map_id ("\x7b\"frame_id\": ".toList ++ decimal frameId)]
    refine List.map_congr_left fun c hc => ?_
    rw [toNat_ofNat_of_lt (by have := hascii c hc; omega), Char.ofNat_toNat, id]
  rw [leadingFrameId, hrest, hstart, utf8_append, utf8_ascii hascii, utf8_cons,
    utf8EncodeChar_ascii (by decide), List.map_append, List.map_map]
  rw [show (fun x : UInt8 => Char.ofNat x.toNat) ∘ (fun c : Char => UInt8.ofNat c.toNat) =
    fun c => Char.ofNat (UInt8.ofNat c.toNat).toNat from rfl, hmap, List.append_assoc,
    stripPrefix_append, Option.bind_some]
  change (splitOnce ',' (decimal frameId ++ ',' :: _)).map _ = _
  rw [splitOnce_append hcomma]
  simp

/-- A decoder of envelopes: it reads their frame ids and nothing else. -/
def Decoder.ofEnvelopes : Decoder where
  metadataFromSlice := fun _ => none
  valueFromSlice := fun b =>
    (leadingFrameId b).map fun n => .object [("frame_id".toList, .number (some n))]
  frameId_of_envelope := by
    intro capture frameId timestamp _
    rw [leadingFrameId_envelope]
    rfl

/-- `serde_json::from_slice::<SegmentMetadata>` on a file's content. -/
def Decoder.metadata (decoder : Decoder) : Contents → Option SegmentMetadata
  | .bytes b => decoder.metadataFromSlice b
  | .metadata m => some m
  | .captureTime _ => none

end SolstoneTmux
