import SolstoneTmux.Foundations.Join
import SolstoneTmux.Foundations.JsonText
import SolstoneTmux.Foundations.Rows
import SolstoneTmux.Pairing.Store

/-!
# Endpoints of a journal

A journal lists its endpoints in an answer (`parseDialEndpoints`), and the stored credential keeps
them with up to two endpoints that were stored before (`mergeDialEndpoints`). Addresses are compared
as parsed, and a stored endpoint that is a host name is never a repeat.

* `mergeListed_eq`: of an answer, the first occurrences are kept, in order.
* `mergeStored_idem`: what was chosen from the stored endpoints is chosen again.
* `endpoints_merged` assembles these, with what they mean for submitting the same answer again.
-/

namespace SolstoneTmux

open Foundations

/-! ## The answer -/

/-- `Value::as_i64`. -/
def asI64 : JsonValue → Option ℤ
  | .number text => parseI64 text
  | _ => none

/-- `Value::as_object`, as whether there is one. -/
def isObject : JsonValue → Bool
  | .object _ => true
  | _ => false

/-- `DialEndpointsParseResult`. -/
inductive DialEndpointsParseResult
  | commit (endpoints : List EndpointAddr)
  | leave
  | undecodable

section Parse

variable {Ip : Type} (fromSlice : Bytes → Option JsonValue) (parse : Str → Option Ip)
  (toText : Ip → Str)

/-- One item of the list, if it is an endpoint. -/
def parseEndpoint (item : JsonValue) : Option EndpointAddr := do
  let ipStr ← (item.get "ip".toList).bind JsonValue.asString
  let ip ← parse ipStr
  let port ← (item.get "port".toList).bind JsonValue.asNat
  if 1 ≤ port ∧ port ≤ 65535 then some ⟨toText ip, port⟩ else none

/-- `parse_dial_endpoints`; `fromSlice` is `serde_json::from_slice`. -/
def parseDialEndpoints (body : Bytes) : DialEndpointsParseResult :=
  match fromSlice body with
  | none => .undecodable
  | some value =>
    if !isObject value then .undecodable
    -- an answer of version 1 omits the paired address, so it changes nothing
    else if !((value.get "v".toList).bind asI64).any (2 ≤ ·) then .leave
    else
      match (value.get "endpoints".toList).bind JsonValue.asArray with
      | none => .undecodable
      | some items =>
        let kept := items.filterMap (parseEndpoint parse toText)
        if kept.isEmpty then .leave else .commit kept

variable {fromSlice parse toText}

/-- Every endpoint of an answer is an address as the program writes it. -/
theorem host_of_parseDialEndpoints {body : Bytes} {listed : List EndpointAddr}
    (h : parseDialEndpoints fromSlice parse toText body = .commit listed) :
    ∀ e ∈ listed, ∃ ip, e.host = toText ip := by
  unfold parseDialEndpoints at h
  split at h
  · cases h
  · split at h
    · cases h
    · split at h
      · cases h
      · split at h
        · cases h
        · dsimp only at h
          split at h
          · cases h
          · cases h
            intro e he
            obtain ⟨item, -, hitem⟩ := List.mem_filterMap.mp he
            simp only [parseEndpoint, Option.bind_eq_bind, Option.bind_eq_some_iff] at hitem
            obtain ⟨ipStr, -, ip, -, port, -, hport⟩ := hitem
            split at hport
            · cases hport
              exact ⟨ip, rfl⟩
            · cases hport

end Parse

/-! ## The merge -/

section Merge

variable {Ip : Type} [DecidableEq Ip] {parse : Str → Option Ip} {toText : Ip → Str}
  {seen : List (Ip × ℕ)} {listed stored : List EndpointAddr}

/-- The parsed address and the port of an endpoint, unless it is a host name. -/
def ipEndpoint (parse : Str → Option Ip) (e : EndpointAddr) : Option (Ip × ℕ) :=
  (parse e.host).map fun ip => (ip, e.port)

/-- The endpoints that the program wrote for these addresses. -/
def WrittenFrom (toText : Ip → Str) (endpoints : List EndpointAddr) : Prop :=
  ∀ e ∈ endpoints, ∃ ip, e.host = toText ip

omit [DecidableEq Ip] in
theorem ipEndpoint_written (hparse : ∀ ip, parse (toText ip) = some ip) (ip : Ip) (port : ℕ) :
    ipEndpoint parse ⟨toText ip, port⟩ = some (ip, port) := by
  simp [ipEndpoint, hparse]

/-- The addresses that the first loop has seen. -/
theorem mem_mergeListed_seen {a : Ip × ℕ} :
    a ∈ (mergeListed parse toText seen listed).1 ↔
      a ∈ seen ∨ a ∈ listed.filterMap (ipEndpoint parse) := by
  induction listed generalizing seen with
  | nil => simp [mergeListed]
  | cons e listed ih =>
    rw [mergeListed]
    cases hip : parse e.host with
    | none => simp [ih, ipEndpoint, hip]
    | some ip =>
      have hkey : ipEndpoint parse e = some (ip, e.port) := by simp [ipEndpoint, hip]
      rw [List.filterMap_cons_some hkey, List.mem_cons]
      dsimp only
      split
      · rename_i hseen
        rw [ih]
        constructor
        · rintro (h | h)
          · exact Or.inl h
          · exact Or.inr (Or.inr h)
        · rintro (h | rfl | h)
          · exact Or.inl h
          · exact Or.inl hseen
          · exact Or.inr h
      · simp only [ih, List.mem_cons]
        tauto

/-- The first loop keeps the first occurrences that were not seen before. -/
theorem mergeListed_eq (hparse : ∀ ip, parse (toText ip) = some ip)
    (hwritten : WrittenFrom toText listed) :
    (mergeListed parse toText seen listed).2 =
      (listed.filter fun e => ipEndpoint parse e ∉ seen.map some).eraseDups := by
  induction listed generalizing seen with
  | nil => rfl
  | cons e listed ih =>
    obtain ⟨host, port⟩ := e
    obtain ⟨ip, rfl⟩ : ∃ ip, host = toText ip := hwritten _ List.mem_cons_self
    have hrest : WrittenFrom toText listed := fun e he => hwritten e (List.mem_cons_of_mem _ he)
    have hkey := ipEndpoint_written hparse ip port
    rw [mergeListed, hparse]
    dsimp only
    split
    · rename_i hseen
      rw [ih hrest, List.filter_cons_of_neg (by simpa [hkey] using hseen)]
    · rename_i hseen
      rw [List.filter_cons_of_pos (by simpa [hkey] using hseen), List.eraseDups_cons]
      simp only [ih hrest, List.filter_filter]
      congr 2
      refine List.filter_congr fun e he => ?_
      -- an endpoint written for the same address is the same endpoint
      obtain ⟨ip', hip'⟩ := hrest e he
      have hsame : ipEndpoint parse e = some (ip, port) ↔ e = ⟨toText ip, port⟩ := by
        constructor
        · intro h
          simp only [ipEndpoint, hip', hparse, Option.map_some, Option.some.injEq,
            Prod.mk.injEq] at h
          obtain ⟨host, port'⟩ := e
          simp only at h hip'
          rw [hip', h.1, h.2]
        · rintro rfl
          exact hkey
      simp only [List.map_cons, List.mem_cons, hsame, not_or, beq_eq_decide, Bool.decide_and,
        decide_not]

/-- The addresses of what the first loop keeps are new and distinct. -/
theorem nodup_mergeListed (hparse : ∀ ip, parse (toText ip) = some ip) :
    ((mergeListed parse toText seen listed).2.filterMap (ipEndpoint parse)).Nodup ∧
      ∀ a ∈ (mergeListed parse toText seen listed).2.filterMap (ipEndpoint parse), a ∉ seen := by
  induction listed generalizing seen with
  | nil => simp [mergeListed]
  | cons e listed ih =>
    rw [mergeListed]
    cases hip : parse e.host with
    | none => exact ih
    | some ip =>
      dsimp only
      split
      · exact ih
      · rename_i hseen
        obtain ⟨hnodup, hnew⟩ := @ih ((ip, e.port) :: seen)
        rw [List.filterMap_cons_some (ipEndpoint_written hparse ip e.port)]
        refine ⟨List.nodup_cons.mpr ⟨fun h => hnew _ h List.mem_cons_self, hnodup⟩, ?_⟩
        intro a ha
        rcases List.mem_cons.mp ha with rfl | ha
        · exact hseen
        · exact fun h => hnew a ha (List.mem_cons_of_mem _ h)

/-- What is taken from the stored endpoints. -/
theorem mergeStored_taken (left : ℕ) :
    (mergeStored parse left seen stored).Sublist stored ∧
      (mergeStored parse left seen stored).length ≤ left ∧
      ((mergeStored parse left seen stored).filterMap (ipEndpoint parse)).Nodup ∧
      ∀ a ∈ (mergeStored parse left seen stored).filterMap (ipEndpoint parse), a ∉ seen := by
  induction stored generalizing left seen with
  | nil => cases left <;> simp [mergeStored]
  | cons e stored ih =>
    cases left with
    | zero => simp [mergeStored]
    | succ left =>
      rw [mergeStored]
      cases hip : parse e.host with
      | none =>
        have hkey : ipEndpoint parse e = none := by simp [ipEndpoint, hip]
        obtain ⟨hsub, hlen, hnodup, hnew⟩ := @ih seen left
        dsimp only
        rw [List.filterMap_cons_none hkey]
        exact ⟨hsub.cons_cons e, Nat.succ_le_succ hlen, hnodup, hnew⟩
      | some ip =>
        have hkey : ipEndpoint parse e = some (ip, e.port) := by simp [ipEndpoint, hip]
        dsimp only
        split
        · obtain ⟨hsub, hrest⟩ := @ih seen (left + 1)
          exact ⟨hsub.cons e, hrest⟩
        · rename_i hseen
          obtain ⟨hsub, hlen, hnodup, hnew⟩ := @ih ((ip, e.port) :: seen) left
          rw [List.filterMap_cons_some hkey]
          refine ⟨hsub.cons_cons e, Nat.succ_le_succ hlen,
            List.nodup_cons.mpr ⟨fun h => hnew _ h List.mem_cons_self, hnodup⟩, ?_⟩
          intro a ha
          rcases List.mem_cons.mp ha with rfl | ha
          · exact hseen
          · exact fun h => hnew a ha (List.mem_cons_of_mem _ h)

/-- What was taken from the stored endpoints is taken again. -/
theorem mergeStored_idem (left : ℕ) :
    mergeStored parse left seen (mergeStored parse left seen stored) =
      mergeStored parse left seen stored := by
  induction stored generalizing left seen with
  | nil => cases left <;> simp [mergeStored]
  | cons e stored ih =>
    cases left with
    | zero => simp [mergeStored]
    | succ left =>
      rw [mergeStored]
      cases hip : parse e.host with
      | none =>
        dsimp only
        rw [mergeStored, hip]
        dsimp only
        rw [ih]
      | some ip =>
        dsimp only
        split
        · exact ih (left + 1)
        · rename_i hseen
          rw [mergeStored, hip]
          dsimp only
          rw [if_neg hseen, ih]

/-- Endpoints that were seen take no place. -/
theorem mergeStored_seen (left : ℕ) {kept : List EndpointAddr}
    (h : ∀ e ∈ kept, ∃ a ∈ seen, ipEndpoint parse e = some a) :
    mergeStored parse left seen (kept ++ stored) = mergeStored parse left seen stored := by
  induction kept with
  | nil => rfl
  | cons e kept ih =>
    cases left with
    | zero => simp [mergeStored]
    | succ left =>
      obtain ⟨⟨ip, port⟩, hseen, hkey⟩ := h e List.mem_cons_self
      simp only [ipEndpoint, Option.map_eq_some_iff, Prod.mk.injEq] at hkey
      obtain ⟨ip', hip, rfl, rfl⟩ := hkey
      rw [List.cons_append, mergeStored, hip]
      dsimp only
      rw [if_pos hseen]
      exact ih fun e' he' => h e' (List.mem_cons_of_mem _ he')

/-- The merge keeps the first occurrences of what the journal lists and some stored endpoints. -/
theorem mergeDialEndpoints_eq (hparse : ∀ ip, parse (toText ip) = some ip)
    (hwritten : WrittenFrom toText listed) :
    mergeDialEndpoints parse toText listed stored = listed.eraseDups ++
      mergeStored parse 2 (mergeListed parse toText [] listed).1 stored := by
  have hkept := @mergeListed_eq _ _ _ _ [] _ hparse hwritten
  simp only [List.map_nil, List.not_mem_nil, not_false_eq_true, decide_true, List.filter_true]
    at hkept
  rw [mergeDialEndpoints, ← hkept]

theorem mergeDialEndpoints_stable (hparse : ∀ ip, parse (toText ip) = some ip)
    (hwritten : WrittenFrom toText listed) :
    mergeDialEndpoints parse toText listed (mergeDialEndpoints parse toText listed stored) =
      mergeDialEndpoints parse toText listed stored := by
  have hseen : ∀ e ∈ listed.eraseDups, ∃ a ∈ (mergeListed parse toText [] listed).1,
      ipEndpoint parse e = some a := by
    intro e he
    have hlisted := List.mem_eraseDups.mp he
    obtain ⟨host, port⟩ := e
    obtain ⟨ip, rfl⟩ : ∃ ip, host = toText ip := hwritten _ hlisted
    have hkey := ipEndpoint_written hparse ip port
    refine ⟨(ip, port), ?_, hkey⟩
    exact mem_mergeListed_seen.mpr (Or.inr (List.mem_filterMap.mpr ⟨_, hlisted, hkey⟩))
  rw [mergeDialEndpoints_eq hparse hwritten, mergeDialEndpoints_eq hparse hwritten,
    mergeStored_seen 2 hseen, mergeStored_idem]

/-- Endpoints that are merged already are not submitted again. -/
theorem claimDialEndpoints_of_merged (pairingGeneration : Str → Bytes) {w : Session}
    (h : mergeDialEndpoints parse toText listed w.store.credential.endpoints =
      w.store.credential.endpoints) (built : Bool) :
    w.claimDialEndpoints parse toText pairingGeneration listed built = w := by
  unfold Session.claimDialEndpoints
  split
  · rfl
  · dsimp only
    rw [h, if_pos (by simp)]

/-- The merge of an answer with stored endpoints: the answer without repeats, then at most two
stored endpoints that are not listed, in their order, with no address twice. Merging the answer
again changes nothing, and submitting it again neither writes the credential nor replaces the
transport. -/
theorem endpoints_merged {fromSlice : Bytes → Option JsonValue} {body : Bytes}
    (hparse : ∀ ip, parse (toText ip) = some ip)
    (hlisted : parseDialEndpoints fromSlice parse toText body = .commit listed)
    (stored : List EndpointAddr) :
    let merged := mergeDialEndpoints parse toText listed stored
    WrittenFrom toText listed ∧
      (∃ rest, merged = listed.eraseDups ++ rest ∧ rest.Sublist stored ∧ rest.length ≤ 2 ∧
        ∀ a ∈ rest.filterMap (ipEndpoint parse), a ∉ listed.filterMap (ipEndpoint parse)) ∧
      (merged.filterMap (ipEndpoint parse)).Nodup ∧
      mergeDialEndpoints parse toText listed merged = merged ∧
      ∀ (pairingGeneration : Str → Bytes) (w : Session) (built : Bool),
        w.store.credential.endpoints = merged →
          w.claimDialEndpoints parse toText pairingGeneration listed built = w := by
  intro merged
  have hwritten : WrittenFrom toText listed := host_of_parseDialEndpoints hlisted
  have hmerged : merged = listed.eraseDups ++
      mergeStored parse 2 (mergeListed parse toText [] listed).1 stored :=
    mergeDialEndpoints_eq hparse hwritten
  have hstable : mergeDialEndpoints parse toText listed merged = merged :=
    mergeDialEndpoints_stable hparse hwritten
  obtain ⟨hsub, hlen, hnodup, hnew⟩ := @mergeStored_taken _ _ parse
    (mergeListed parse toText [] listed).1 stored 2
  have hunlisted : ∀ a ∈ (mergeStored parse 2 (mergeListed parse toText [] listed).1
      stored).filterMap (ipEndpoint parse), a ∉ listed.filterMap (ipEndpoint parse) :=
    fun a ha h => hnew a ha (mem_mergeListed_seen.mpr (Or.inr h))
  refine ⟨hwritten, ⟨_, hmerged, hsub, hlen, hunlisted⟩, ?_, hstable, ?_⟩
  · have hkept := @mergeListed_eq _ _ _ _ [] _ hparse hwritten
    simp only [List.map_nil, List.not_mem_nil, not_false_eq_true, decide_true, List.filter_true]
      at hkept
    rw [hmerged, List.filterMap_append, List.nodup_append]
    refine ⟨?_, hnodup, ?_⟩
    · rw [← hkept]
      exact (nodup_mergeListed hparse).1
    · rintro a ha b hb rfl
      obtain ⟨e, he, hkey⟩ := List.mem_filterMap.mp ha
      exact hunlisted a hb (List.mem_filterMap.mpr ⟨e, List.mem_eraseDups.mp he, hkey⟩)
  · intro pairingGeneration w built hw
    refine claimDialEndpoints_of_merged pairingGeneration ?_ built
    rw [hw, hstable]

end Merge

/-! ## Version 4 addresses -/

/-- `Ipv4Addr`. -/
structure Ipv4Addr where
  octets : Fin 256 × Fin 256 × Fin 256 × Fin 256
  deriving DecidableEq

namespace Ipv4Addr

/-- One octet: a decimal number below 256 without leading zeros. -/
def parseOctet (s : Str) : Option (Fin 256) :=
  (parseDigits s).bind fun n =>
    if h : n < 256 then if decimal n = s then some ⟨n, h⟩ else none else none

/-- `str::parse::<Ipv4Addr>`. -/
def parse (s : Str) : Option Ipv4Addr :=
  match s.splitOn '.' with
  | [a, b, c, d] => do
    let a ← parseOctet a
    let b ← parseOctet b
    let c ← parseOctet c
    let d ← parseOctet d
    some ⟨a, b, c, d⟩
  | _ => none

/-- `Ipv4Addr::to_string`. -/
def toText (ip : Ipv4Addr) : Str :=
  join '.' [decimal ip.octets.1, decimal ip.octets.2.1, decimal ip.octets.2.2.1,
    decimal ip.octets.2.2.2]

theorem parseOctet_decimal (n : Fin 256) : parseOctet (decimal n) = some n := by
  simp [parseOctet, parseDigits_decimal]

theorem parse_toText (ip : Ipv4Addr) : parse (toText ip) = some ip := by
  have hsplit : (toText ip).splitOn '.' = [decimal ip.octets.1, decimal ip.octets.2.1,
      decimal ip.octets.2.2.1, decimal ip.octets.2.2.2] := by
    refine splitOn_join_of_not_mem (by simp) ?_
    simp [not_mem_decimal, isDigit]
  simp [parse, hsplit, parseOctet_decimal]

end Ipv4Addr

/-- An answer that lists an address twice. -/
def repeatedAnswer : JsonValue :=
  let item : JsonValue := .object
    [("ip".toList, .string "192.0.2.9".toList), ("port".toList, .number "7657".toList)]
  .object [("v".toList, .number "2".toList), ("endpoints".toList, .array [item, item])]

/-- A host name and two addresses, one of them listed. -/
def storedEndpoints : List EndpointAddr :=
  [⟨"journal.local".toList, 7657⟩, ⟨"192.0.2.9".toList, 7657⟩, ⟨"10.0.0.1".toList, 7657⟩]

theorem endpoints_merged_repeated :
    mergeDialEndpoints Ipv4Addr.parse Ipv4Addr.toText
        [⟨"192.0.2.9".toList, 7657⟩, ⟨"192.0.2.9".toList, 7657⟩]
        (mergeDialEndpoints Ipv4Addr.parse Ipv4Addr.toText
          [⟨"192.0.2.9".toList, 7657⟩, ⟨"192.0.2.9".toList, 7657⟩] storedEndpoints) =
      [⟨"192.0.2.9".toList, 7657⟩, ⟨"journal.local".toList, 7657⟩, ⟨"10.0.0.1".toList, 7657⟩] := by
  have hlisted : parseDialEndpoints (fun _ => some repeatedAnswer) Ipv4Addr.parse Ipv4Addr.toText [] =
      .commit [⟨"192.0.2.9".toList, 7657⟩, ⟨"192.0.2.9".toList, 7657⟩] := by rfl
  obtain ⟨-, -, -, hstable, -⟩ := endpoints_merged Ipv4Addr.parse_toText hlisted storedEndpoints
  rw [hstable]
  decide

end SolstoneTmux
