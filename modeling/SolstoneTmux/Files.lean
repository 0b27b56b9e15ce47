import SolstoneTmux.Foundations.Table
import SolstoneTmux.Foundations.Text

/-!
# Directory entries

A directory is a table from names to nodes. A name is either a text or bytes that are not UTF-8
(`OsName`); the two never agree, and `to_str` succeeds on the first kind only. A node is a regular
file, a directory, or anything else (a symbolic link, a socket), which the program only ever
recognises and refuses.
-/

namespace SolstoneTmux

open Foundations

/-- A file name as the operating system stores it: UTF-8 text, or bytes that are not. -/
inductive OsName
  | str (s : Str)
  | nonUtf8 (bytes : Bytes)
  deriving DecidableEq

namespace OsName

/-- A sort key that determines the name. -/
def key : OsName → List ℕ
  | str s => 0 :: s.map Char.toNat
  | nonUtf8 bytes => 1 :: bytes.map UInt8.toNat

theorem key_injective : Function.Injective key := by
  intro a b h
  cases a with
  | str s =>
    cases b with
    | str t =>
      have := List.map_injective_iff.mpr (fun _ _ h => Char.toNat_inj.mp h) (List.cons.inj h).2
      rw [this]
    | nonUtf8 c => cases (List.cons.inj h).1
  | nonUtf8 s =>
    cases b with
    | str t => cases (List.cons.inj h).1
    | nonUtf8 c =>
      have := List.map_injective_iff.mpr (fun _ _ h => UInt8.toNat_inj.mp h) (List.cons.inj h).2
      rw [this]

instance : Ord OsName := ⟨fun a b => compare a.key b.key⟩

theorem compare_eq (a b : OsName) : compare a b = compare a.key b.key := rfl

instance : Std.TransOrd OsName where
  eq_swap := by
    intro a b
    rw [compare_eq, compare_eq]
    exact Std.OrientedCmp.eq_swap
  isLE_trans := by
    intro a b c hab hbc
    rw [compare_eq] at *
    exact Std.TransCmp.isLE_trans hab hbc

instance : Std.LawfulEqOrd OsName where
  compare_self := by
    intro a
    exact Std.ReflCmp.compare_self
  eq_of_compare := by
    intro a b h
    exact key_injective (Std.LawfulEqCmp.eq_of_compare h)

/-- `OsStr::to_str`. -/
def toStr : OsName → Option Str
  | str s => some s
  | nonUtf8 _ => none

@[simp] theorem toStr_str (s : Str) : (str s).toStr = some s := rfl

theorem toStr_eq_some {n : OsName} {s : Str} : n.toStr = some s ↔ n = str s := by
  cases n <;> simp [toStr]

end OsName

/-- What a directory entry is: a regular file with its content `φ`, a directory with its content
`δ`, or a node of another type, of which only the reported length is ever read. -/
inductive Node (φ δ : Type)
  | file (content : φ)
  | directory (content : δ)
  | special (length : ℕ)
  deriving DecidableEq

namespace Node

variable {φ δ : Type}

/-- `Metadata::is_dir` of an entry that is not followed. -/
def isDir : Node φ δ → Bool
  | directory _ => true
  | _ => false

/-- `Metadata::is_file` of an entry that is not followed. -/
def isFile : Node φ δ → Bool
  | file _ => true
  | _ => false

end Node

end SolstoneTmux
