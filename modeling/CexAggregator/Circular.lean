import Mathlib.Algebra.Order.Group.Nat
import Mathlib.Data.List.Induction

/-!
# Circular buffers

Cells written round and round. Read from the cursor on, they are the last values of
everything written, the initial cells included, however often the cursor has wrapped.
-/

namespace CexAggregator

structure Circular (α : Type) where
  cells : List α
  cursor : ℕ
  inRange : cursor < cells.length

namespace Circular
variable {α : Type}

def start (size : ℕ) (a : α) (h : 0 < size) : Circular α where
  cells := List.replicate size a
  cursor := 0
  inRange := by rwa [List.length_replicate]

def write (c : Circular α) (a : α) : Circular α where
  cells := c.cells.set c.cursor a
  cursor := (c.cursor + 1) % c.cells.length
  inRange := by
    rw [List.length_set]
    exact Nat.mod_lt _ (Nat.zero_lt_of_lt c.inRange)

def unrolled (c : Circular α) : List α := c.cells.drop c.cursor ++ c.cells.take c.cursor

theorem unrolled_perm (c : Circular α) : c.unrolled.Perm c.cells := by
  have hswap : c.unrolled.Perm (c.cells.take c.cursor ++ c.cells.drop c.cursor) :=
    List.perm_append_comm
  rwa [List.take_append_drop] at hswap

theorem length_unrolled (c : Circular α) : c.unrolled.length = c.cells.length :=
  c.unrolled_perm.length_eq

theorem unrolled_write (c : Circular α) (a : α) :
    (c.write a).unrolled = c.unrolled.tail ++ [a] := by
  obtain ⟨cells, cursor, hcursor⟩ := c
  have htail : (cells.drop cursor).tail = cells.drop (cursor + 1) := List.tail_drop
  have hne : cells.drop cursor ≠ [] := by
    rw [Ne, List.drop_eq_nil_iff]
    omega
  have hold : (cells.drop cursor ++ cells.take cursor).tail =
      cells.drop (cursor + 1) ++ cells.take cursor := by
    rw [List.tail_append_of_ne_nil hne, htail]
  have hset : (cells.set cursor a).take (cursor + 1) = cells.take cursor ++ [a] := by
    have hcursor' : cursor < (cells.set cursor a).length := by rwa [List.length_set]
    rw [List.take_succ_eq_append_getElem hcursor', List.take_set_of_le le_rfl,
      List.getElem_set_self]
  change (cells.set cursor a).drop ((cursor + 1) % cells.length) ++
    (cells.set cursor a).take ((cursor + 1) % cells.length) = _ ++ [a]
  rw [unrolled, hold]
  by_cases hwrap : cursor + 1 = cells.length
  · have hend : cells.drop (cursor + 1) = [] := List.drop_eq_nil_of_le hwrap.ge
    have hall : (cells.set cursor a).take (cursor + 1) = cells.set cursor a := by
      rw [List.take_of_length_le (by rw [List.length_set, hwrap])]
    rw [hwrap, Nat.mod_self, List.drop_zero, List.take_zero, List.append_nil, ← hall, hset,
      ← hwrap, hend, List.nil_append]
  · have hlt : cursor + 1 < cells.length := by omega
    rw [Nat.mod_eq_of_lt hlt, hset, List.drop_set_of_lt (Nat.lt_succ_self cursor),
      List.append_assoc]

def writeAll (c : Circular α) (as : List α) : Circular α := as.foldl write c

theorem cursor_write (c : Circular α) (a : α) :
    (c.write a).cursor = (c.cursor + 1) % c.cells.length := rfl

theorem writeAll_append_singleton (c : Circular α) (as : List α) (a : α) :
    c.writeAll (as ++ [a]) = (c.writeAll as).write a := by
  rw [writeAll, List.foldl_append]
  rfl

theorem length_writeAll (c : Circular α) (as : List α) :
    (c.writeAll as).cells.length = c.cells.length := by
  induction as generalizing c with
  | nil => rfl
  | cons a as ih => exact (ih (c.write a)).trans List.length_set

theorem unrolled_writeAll (c : Circular α) (as : List α) :
    (c.writeAll as).unrolled = (c.unrolled ++ as).drop as.length := by
  induction as using List.reverseRecOn with
  | nil => simp [writeAll]
  | append_singleton as a ih =>
    have hlength : as.length < (c.unrolled ++ as).length := by
      have := c.inRange
      rw [List.length_append, length_unrolled]
      omega
    rw [writeAll_append_singleton, unrolled_write, ih, List.tail_drop, List.length_append,
      List.length_singleton, ← List.append_assoc]
    exact (List.drop_append_of_le_length hlength).symm

theorem cursor_writeAll (c : Circular α) (as : List α) :
    (c.writeAll as).cursor = (c.cursor + as.length) % c.cells.length := by
  induction as using List.reverseRecOn with
  | nil => exact (Nat.mod_eq_of_lt c.inRange).symm
  | append_singleton as a ih =>
    rw [writeAll_append_singleton, cursor_write, ih, length_writeAll, List.length_append,
      List.length_singleton, Nat.mod_add_mod, Nat.add_assoc]

/-- The filled cells hold the most recent values, in some order. -/
theorem take_writeAll_perm {c : Circular α} (hstart : c.cursor = 0) (as : List α) :
    ((c.writeAll as).cells.take (min as.length c.cells.length)).Perm
      (as.drop (as.length - min as.length c.cells.length)) := by
  have hlength := length_writeAll c as
  have hunrolled := unrolled_writeAll c as
  have hinitial : c.unrolled = c.cells := by
    rw [unrolled, hstart, List.drop_zero, List.take_zero, List.append_nil]
  rw [hinitial] at hunrolled
  by_cases hfull : c.cells.length ≤ as.length
  · rw [min_eq_right hfull, ← hlength, List.take_length, hlength]
    refine (unrolled_perm _).symm.trans ?_
    rw [hunrolled, List.drop_append, List.drop_eq_nil_of_le hfull, List.nil_append]
  · have hshort : as.length ≤ c.cells.length := by omega
    have hcursor : (c.writeAll as).cursor = as.length := by
      rw [cursor_writeAll, hstart, Nat.zero_add, Nat.mod_eq_of_lt (not_le.mp hfull)]
    rw [unrolled, hcursor, List.drop_append_of_le_length hshort] at hunrolled
    have hsplit := List.append_inj_right hunrolled
      (by rw [List.length_drop, List.length_drop, hlength])
    rw [min_eq_left hshort, Nat.sub_self, List.drop_zero, hsplit]

end Circular

end CexAggregator
