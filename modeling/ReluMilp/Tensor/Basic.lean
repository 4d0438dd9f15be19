import ReluMilp.Fault

/-!
# Tensors

Arrays of any depth, as a shape and the entries in reading order.

* `volume` — the number of entries of a shape;
* `chunks` — a list cut into pieces of one length, with `flatten_chunks`: nothing is lost;
* `Tensor` — shape and entries, as many as the shape says;
* `Tensor.rows`, `Tensor.ofRows` — the innermost rows of a tensor, and a tensor from its rows;
* `Tensor.transpose` — rows and columns of a matrix exchanged;
* `Tensor.traverse` — a function that may fail applied to every entry, up to the first fault.
-/

namespace ReluMilp

/-- The number of entries of a shape. -/
def volume : List Nat → Nat
  | [] => 1
  | n :: ns => n * volume ns

@[simp] theorem volume_nil : volume [] = 1 := rfl

@[simp] theorem volume_cons (n : Nat) (ns : List Nat) : volume (n :: ns) = n * volume ns := rfl

theorem volume_append (a b : List Nat) : volume (a ++ b) = volume a * volume b := by
  induction a with
  | nil => simp
  | cons n ns ih => simp [ih, Nat.mul_assoc]

/-! ### Pieces of a list -/

variable {α : Type}

/-- The first `k` pieces of length `n`. -/
def chunks (n : Nat) : Nat → List α → List (List α)
  | 0, _ => []
  | k + 1, xs => xs.take n :: chunks n k (xs.drop n)

@[simp] theorem length_chunks (n k : Nat) (xs : List α) : (chunks n k xs).length = k := by
  induction k generalizing xs with
  | zero => rfl
  | succ k ih => simp [chunks, ih]

theorem length_of_mem_chunks {n k : Nat} {xs : List α} (h : xs.length = k * n) :
    ∀ c ∈ chunks n k xs, c.length = n := by
  induction k generalizing xs with
  | zero => simp [chunks]
  | succ k ih =>
    have hm : (k + 1) * n = k * n + n := Nat.succ_mul k n
    intro c hc
    simp only [chunks, List.mem_cons] at hc
    rcases hc with rfl | hc
    · simp only [List.length_take]; omega
    · exact ih (by simp only [List.length_drop]; omega) c hc

theorem flatten_chunks {n k : Nat} {xs : List α} (h : xs.length = k * n) :
    (chunks n k xs).flatten = xs := by
  induction k generalizing xs with
  | zero => simp at h; simp [chunks, h]
  | succ k ih =>
    have hm : (k + 1) * n = k * n + n := Nat.succ_mul k n
    have hd : (xs.drop n).length = k * n := by simp only [List.length_drop]; omega
    simp [chunks, ih hd]

theorem chunks_flatten {n : Nat} {xss : List (List α)} (h : ∀ xs ∈ xss, xs.length = n) :
    chunks n xss.length xss.flatten = xss := by
  induction xss with
  | nil => rfl
  | cons xs xss ih =>
    have hx : xs.length = n := h xs (by simp)
    have hr := ih fun ys hy => h ys (by simp [hy])
    simp [chunks, ← hx] at hr ⊢
    exact hr

theorem length_flatten_of_forall {n : Nat} {xss : List (List α)} (h : ∀ xs ∈ xss, xs.length = n) :
    xss.flatten.length = xss.length * n := by
  induction xss with
  | nil => simp
  | cons xs xss ih =>
    have hx : xs.length = n := h xs (by simp)
    have hr := ih fun ys hy => h ys (by simp [hy])
    have hm : (xss.length + 1) * n = xss.length * n + n := Nat.succ_mul _ n
    simp only [List.flatten_cons, List.length_append, List.length_cons]
    omega

/-! ### Tensors -/

/-- An array: its shape, and its entries in reading order. -/
structure Tensor (α : Type) where
  shape : List Nat
  entries : List α
  length_eq : entries.length = volume shape

namespace Tensor

/-- The number of dimensions. -/
def rank (t : Tensor α) : Nat := t.shape.length

/-- A single entry without dimensions. -/
def single (a : α) : Tensor α := ⟨[], [a], rfl⟩

/-- A vector. -/
def ofVector (v : List α) : Tensor α := ⟨[v.length], v, by simp⟩

/-- A function applied to every entry. -/
def map {β : Type} (f : α → β) (t : Tensor α) : Tensor β :=
  ⟨t.shape, t.entries.map f, by simp [t.length_eq]⟩

theorem length_of_mapM_eq_ok {β : Type} {f : α → Except Fault β} {xs : List α} {ys : List β}
    (h : xs.mapM f = .ok ys) : ys.length = xs.length := by
  induction xs generalizing ys with
  | nil =>
    have hy : ys = [] := by simpa [pure, Except.pure] using h.symm
    simp [hy]
  | cons x xs ih =>
    rw [List.mapM_cons] at h
    cases hx : f x with
    | error e => simp [hx, bind, Except.bind] at h
    | ok y =>
      cases hs : xs.mapM f with
      | error e => simp [hx, hs, bind, Except.bind] at h
      | ok zs =>
        have hz : ys = y :: zs := by
          simpa [hx, hs, bind, Except.bind, pure, Except.pure] using h.symm
        simp [hz, ih hs]

/-- A function applied to every entry in reading order; the first fault is the result. -/
def traverse {β : Type} (f : α → Except Fault β) (t : Tensor α) : Except Fault (Tensor β) :=
  match h : t.entries.mapM f with
  | .ok es => .ok ⟨t.shape, es, by rw [length_of_mapM_eq_ok h, t.length_eq]⟩
  | .error e => .error e

/-- The rows along the last dimension; a single entry has none. -/
def rows (t : Tensor α) : List (List α) :=
  match t.shape.getLast? with
  | none => []
  | some n => chunks n (volume t.shape.dropLast) t.entries

/-- The outermost items; a single entry has none. -/
def items (t : Tensor α) : List (Tensor α) :=
  match h : t.shape with
  | [] => []
  | m :: rest =>
    have hl : t.entries.length = m * volume rest := by rw [t.length_eq, h, volume_cons]
    (chunks (volume rest) m t.entries).attach.map fun ⟨c, hc⟩ =>
      ⟨rest, c, length_of_mem_chunks hl c hc⟩

/-- The tensor of rows of length `n`, arranged in the shape `lead`. -/
def ofRows (lead : List Nat) (n : Nat) (rows : List (List α)) (count : rows.length = volume lead)
    (width : ∀ r ∈ rows, r.length = n) : Tensor α :=
  ⟨lead ++ [n], rows.flatten, by
    rw [length_flatten_of_forall width, count, volume_append]; simp⟩

theorem length_eq_of_getLast? {t : Tensor α} {n : Nat} (h : t.shape.getLast? = some n) :
    t.entries.length = volume t.shape.dropLast * n := by
  have hs : t.shape = t.shape.dropLast ++ [n] := by
    have hne : t.shape ≠ [] := by intro h0; simp [h0] at h
    rw [List.getLast?_eq_some_getLast hne] at h
    have hl : t.shape.getLast hne = n := Option.some.inj h
    rw [← hl]
    exact (List.dropLast_concat_getLast hne).symm
  rw [t.length_eq]
  conv => lhs; rw [hs, volume_append]
  simp

theorem length_rows {t : Tensor α} {n : Nat} (h : t.shape.getLast? = some n) :
    t.rows.length = volume t.shape.dropLast := by
  simp [rows, h]

theorem length_of_mem_rows {t : Tensor α} {n : Nat} (h : t.shape.getLast? = some n) :
    ∀ r ∈ t.rows, r.length = n := by
  intro r hr
  simp only [rows, h] at hr
  exact length_of_mem_chunks (length_eq_of_getLast? h) r hr

@[simp] theorem rows_ofRows (lead : List Nat) (n : Nat) (rs : List (List α))
    (count : rs.length = volume lead) (width : ∀ r ∈ rs, r.length = n) :
    (ofRows lead n rs count width).rows = rs := by
  simp [rows, ofRows, ← count, chunks_flatten width]

/-- The tensor whose outermost items are the given tensors of one shape. -/
def stack (shape : List Nat) (ts : List (Tensor α)) (same : ∀ t ∈ ts, t.shape = shape) :
    Tensor α :=
  ⟨ts.length :: shape, (ts.map (·.entries)).flatten, by
    have h : ∀ xs ∈ ts.map (·.entries), xs.length = volume shape := by
      intro xs hx
      obtain ⟨t, ht, rfl⟩ := List.mem_map.1 hx
      rw [t.length_eq, same t ht]
    rw [length_flatten_of_forall h]; simp⟩

/-- The columns of a matrix given by rows of length `n`. -/
def columns (n : Nat) (rows : List (List α)) : List (List α) :=
  (List.range n).map fun j => rows.filterMap (·[j]?)

theorem length_of_mem_columns {n : Nat} {rs : List (List α)} (h : ∀ r ∈ rs, r.length = n) :
    ∀ c ∈ columns n rs, c.length = rs.length := by
  intro c hc
  simp only [columns, List.mem_map, List.mem_range] at hc
  obtain ⟨j, hj, rfl⟩ := hc
  induction rs with
  | nil => rfl
  | cons r rs ih =>
    have hr : r.length = n := h r (by simp)
    have hget : r[j]? = some (r.get ⟨j, by omega⟩) := List.getElem?_eq_getElem (by omega)
    have := ih fun r' hr' => h r' (by simp [hr'])
    simp [hget, this]

/-- Rows and columns exchanged; a vector or a single entry stays, deeper tensors are not needed
and stay too. -/
def transpose (t : Tensor α) : Tensor α :=
  match h : t.shape with
  | [m, n] =>
    have hl : t.shape.getLast? = some n := by simp [h]
    have hm : t.rows.length = m := by rw [length_rows hl, h]; simp
    ofRows [n] m (columns n t.rows) (by simp [columns]) (by
      intro c hc
      rw [length_of_mem_columns (length_of_mem_rows hl) c hc, hm])
  | _ => t

end Tensor

/-- A tensor that was read, or why it could not be; the reason shows when the tensor is used. -/
abbrev Reading (α : Type) := Except Fault (Tensor α)

end ReluMilp
