/-!
# Probes: computations that log the offsets they read

A parser that walks a buffer through pointers is modelled over the whole memory, `Nat → β`, so
that a read past the end of its input still returns something, as it does on the machine. A
`Probe` returns its value together with the offsets it read, in order; whether a parser stays in
its input is then a statement about that log (`ReadsOnly`), proved from one rule per way of
building a probe.
-/

/-- A computation over a memory that returns `val` and logs, in order, the offsets it read. -/
structure Probe (α : Type) where
  val : α
  reads : List Nat

namespace Probe

variable {α β : Type}

instance : Monad Probe where
  pure a := ⟨a, []⟩
  bind x f := ⟨(f x.val).val, x.reads ++ (f x.val).reads⟩

def read (memory : Nat → β) (i : Nat) : Probe β := ⟨memory i, [i]⟩

@[simp] theorem val_pure (a : α) : (pure a : Probe α).val = a := rfl

@[simp] theorem reads_pure (a : α) : (pure a : Probe α).reads = [] := rfl

@[simp] theorem val_bind (x : Probe α) (f : α → Probe β) : (x >>= f).val = (f x.val).val := rfl

@[simp] theorem reads_bind (x : Probe α) (f : α → Probe β) :
    (x >>= f).reads = x.reads ++ (f x.val).reads := rfl

@[simp] theorem val_map (g : α → β) (x : Probe α) : (g <$> x).val = g x.val := rfl

@[simp] theorem reads_map (g : α → β) (x : Probe α) : (g <$> x).reads = x.reads := by
  show x.reads ++ [] = x.reads
  exact List.append_nil _

@[simp] theorem reads_discard (x : Probe α) : (discard x).reads = x.reads := by
  show x.reads ++ [] = x.reads
  exact List.append_nil _

@[simp] theorem val_ite (c : Prop) [Decidable c] (x y : Probe α) :
    (if c then x else y).val = if c then x.val else y.val := by
  split <;> rfl

@[simp] theorem val_read (memory : Nat → β) (i : Nat) : (read memory i).val = memory i := rfl

@[simp] theorem reads_read (memory : Nat → β) (i : Nat) : (read memory i).reads = [i] := rfl

/-- Every offset that `x` reads satisfies `P`. -/
def ReadsOnly (P : Nat → Prop) (x : Probe α) : Prop :=
  ∀ i ∈ x.reads, P i

variable {P Q : Nat → Prop}

@[simp] theorem readsOnly_pure (a : α) : (pure a : Probe α).ReadsOnly P := by
  simp [ReadsOnly]

@[simp] theorem readsOnly_read_iff (memory : Nat → β) {i : Nat} :
    (read memory i).ReadsOnly P ↔ P i := by
  simp [ReadsOnly]

@[simp] theorem readsOnly_bind_iff {x : Probe α} {f : α → Probe β} :
    (x >>= f).ReadsOnly P ↔ x.ReadsOnly P ∧ (f x.val).ReadsOnly P := by
  simp only [ReadsOnly, reads_bind, List.mem_append]
  constructor
  · intro h
    exact ⟨fun i mem => h i (.inl mem), fun i mem => h i (.inr mem)⟩
  · rintro ⟨hx, hf⟩ i (mem | mem)
    · exact hx i mem
    · exact hf i mem

@[simp] theorem readsOnly_discard_iff {x : Probe α} : (discard x).ReadsOnly P ↔ x.ReadsOnly P := by
  simp [ReadsOnly]

@[simp] theorem readsOnly_map_iff (g : α → β) {x : Probe α} :
    (g <$> x).ReadsOnly P ↔ x.ReadsOnly P := by
  simp [ReadsOnly]

theorem ReadsOnly.imp {x : Probe α} (hx : x.ReadsOnly P) (h : ∀ i, P i → Q i) :
    x.ReadsOnly Q :=
  fun i mem => h i (hx i mem)

theorem mem_reads_bind_left {x : Probe α} {f : α → Probe β} {i : Nat} (mem : i ∈ x.reads) :
    i ∈ (x >>= f).reads := by
  simp [mem]

theorem mem_reads_bind_right {x : Probe α} {f : α → Probe β} {i : Nat}
    (mem : i ∈ (f x.val).reads) : i ∈ (x >>= f).reads := by
  simp [mem]

/-- `x`, run on the memory from offset `k` on, with its reads logged as offsets of the whole
memory. -/
def shift (k : Nat) (x : Probe α) : Probe α := ⟨x.val, x.reads.map (k + ·)⟩

@[simp] theorem val_shift (k : Nat) (x : Probe α) : (x.shift k).val = x.val := rfl

@[simp] theorem readsOnly_shift_iff {k : Nat} {x : Probe α} :
    (x.shift k).ReadsOnly P ↔ x.ReadsOnly (fun i => P (k + i)) := by
  simp [ReadsOnly, shift]

theorem mem_reads_shift {k i : Nat} {x : Probe α} (mem : i ∈ x.reads) : k + i ∈ (x.shift k).reads :=
  List.mem_map_of_mem mem

theorem bind_congr_val {x : Probe α} {f g : α → Probe β} (same : f x.val = g x.val) :
    x >>= f = x >>= g := by
  show (⟨_, _⟩ : Probe β) = ⟨_, _⟩
  rw [same]

end Probe
