import Mathlib.Tactic

/-! Flat files: what a write, a change of length and a read are to the bytes of a file. -/
namespace LaLiga.Lib

variable {α : Type*}

/-- `data` at `offset`; a gap behind the end is filled with `z`. -/
def overwrite (z : α) (l : List α) (offset : Nat) (data : List α) : List α :=
  l.take offset ++ List.replicate (offset - l.length) z ++ data ++ l.drop (offset + data.length)

/-- The first `n` elements, and `z` where there are fewer. -/
def resize (z : α) (l : List α) (n : Nat) : List α := l.take n ++ List.replicate (n - l.length) z

/-- The `n` elements from `offset` on, or as many as there are. -/
def window (l : List α) (offset n : Nat) : List α := (l.drop offset).take n

variable {z : α} {l data : List α} {offset n k : Nat}

@[simp]
theorem length_overwrite : (overwrite z l offset data).length = max l.length (offset + data.length)
    := by
  simp only [overwrite, List.length_append, List.length_take, List.length_replicate,
    List.length_drop]
  omega

@[simp]
theorem length_resize : (resize z l n).length = n := by
  simp only [resize, List.length_append, List.length_take, List.length_replicate]
  omega

@[simp]
theorem length_window : (window l offset n).length = min n (l.length - offset) := by
  simp only [window, List.length_take, List.length_drop]

theorem getElem?_overwrite : (overwrite z l offset data)[k]? =
    if k < offset then if k < l.length then l[k]? else some z
    else if k < offset + data.length then data[k - offset]? else l[k]? := by
  have hgap : (l.take offset ++ List.replicate (offset - l.length) z).length = offset := by
    simp only [List.length_append, List.length_take, List.length_replicate]
    omega
  unfold overwrite
  split_ifs with hbefore hin hwritten
  · rw [List.append_assoc, List.getElem?_append_left (by omega),
      List.getElem?_append_left (by rw [List.length_take]; omega),
      List.getElem?_take_of_lt hbefore]
  · rw [List.append_assoc, List.getElem?_append_left (by omega),
      List.getElem?_append_right (by rw [List.length_take]; omega)]
    exact List.getElem?_replicate_of_lt (by rw [List.length_take]; omega)
  · rw [List.getElem?_append_left (by rw [List.length_append]; omega),
      List.getElem?_append_right (by omega), hgap]
  · rw [List.getElem?_append_right (by rw [List.length_append]; omega), List.length_append, hgap,
      List.getElem?_drop]
    congr 1
    omega

theorem getElem?_resize : (resize z l n)[k]? =
    if k < n then if k < l.length then l[k]? else some z else none := by
  unfold resize
  split_ifs with hn hin
  · rw [List.getElem?_append_left (by rw [List.length_take]; omega), List.getElem?_take_of_lt hn]
  · rw [List.getElem?_append_right (by rw [List.length_take]; omega)]
    exact List.getElem?_replicate_of_lt (by rw [List.length_take]; omega)
  · refine List.getElem?_eq_none ?_
    have := length_resize (z := z) (l := l) (n := n)
    rw [resize] at this
    omega

theorem getElem?_window (hk : k < n) : (window l offset n)[k]? = l[offset + k]? := by
  rw [window, List.getElem?_take_of_lt hk, List.getElem?_drop]

end LaLiga.Lib
