import Mathlib.Data.List.Basic
import Wandr.Lib.Table

/-!
# Codes

A code writes values as bytes such that each is read back whatever follows it, so that codes can be
put one after the other.

* `Code.map`, `Code.pair`, `Code.list`: codes of values that are made of others;
* `Code.nat`, `Code.text`, `Code.table`: numbers, texts and tables.
-/

/-- What is written is read back, whatever follows it. -/
structure Code (α : Type) where
  write : α → List UInt8
  read : List UInt8 → Option (α × List UInt8)
  read_write : ∀ a rest, read (write a ++ rest) = some (a, rest)

namespace Code

variable {α β : Type}

/-- Values that are written as others. -/
def map (c : Code β) (f : α → β) (g : β → Option α) (h : ∀ a, g (f a) = some a) : Code α where
  write a := c.write (f a)
  read bs := (c.read bs).bind fun x => (g x.1).map fun a => (a, x.2)
  read_write a rest := by
    rw [c.read_write, Option.bind_some, h]
    rfl

def pair (c : Code α) (d : Code β) : Code (α × β) where
  write x := c.write x.1 ++ d.write x.2
  read bs := (c.read bs).bind fun x => (d.read x.2).map fun y => ((x.1, y.1), y.2)
  read_write x rest := by
    rw [List.append_assoc, c.read_write, Option.bind_some, d.read_write]
    rfl

/-! ## Numbers -/

def readNat : List UInt8 → Option (Nat × List UInt8)
  | [] => none
  | b :: bs => if b = 0 then some (0, bs) else (readNat bs).map fun x => (x.1 + 1, x.2)

theorem readNat_replicate (n : Nat) (rest : List UInt8) :
    readNat (List.replicate n 1 ++ 0 :: rest) = some (n, rest) := by
  induction n with
  | zero => rfl
  | succ n ih =>
    rw [List.replicate_succ, List.cons_append, readNat, if_neg (by decide), ih]
    rfl

/-- As many ones, and a zero. -/
def nat : Code Nat where
  write n := List.replicate n 1 ++ [0]
  read := readNat
  read_write n rest := by
    rw [List.append_assoc]
    exact readNat_replicate n rest

/-! ## Lists -/

def readList (c : Code α) : Nat → List UInt8 → Option (List α × List UInt8)
  | 0, bs => some ([], bs)
  | n + 1, bs => (c.read bs).bind fun x => (readList c n x.2).map fun y => (x.1 :: y.1, y.2)

theorem readList_flatMap (c : Code α) (as : List α) (rest : List UInt8) :
    readList c as.length (as.flatMap c.write ++ rest) = some (as, rest) := by
  induction as with
  | nil => rfl
  | cons a as ih =>
    rw [List.length_cons, List.flatMap_cons, List.append_assoc, readList, c.read_write,
      Option.bind_some, ih]
    rfl

/-- The length, and each member. -/
def list (c : Code α) : Code (List α) where
  write as := nat.write as.length ++ as.flatMap c.write
  read bs := (nat.read bs).bind fun x => readList c x.1 x.2
  read_write as rest := by
    rw [List.append_assoc, nat.read_write, Option.bind_some]
    exact readList_flatMap c as rest

/-! ## Other values -/

def option (c : Code α) : Code (Option α) :=
  (list c).map Option.toList (fun as => some as.head?) fun o => by cases o <;> rfl

def byte : Code UInt8 := nat.map UInt8.toNat (fun n => some (.ofNat n)) fun _ =>
  congrArg some UInt8.ofNat_toNat

def word : Code UInt32 := nat.map UInt32.toNat (fun n => some (.ofNat n)) fun _ =>
  congrArg some UInt32.ofNat_toNat

def char : Code Char := nat.map Char.toNat (fun n => some (.ofNat n)) fun c =>
  congrArg some (Char.ofNat_toNat c)

def text : Code String := (list char).map String.toList (fun cs => some (.ofList cs)) fun _ =>
  congrArg some String.ofList_toList

def table {κ : Type} {key : α → κ} [DecidableEq κ] (c : Code α) : Code (Table key) :=
  (list c).map Table.rows (fun rows => if h : (rows.map key).Nodup then some ⟨rows, h⟩ else none)
    fun t => dif_pos t.nodup

end Code
