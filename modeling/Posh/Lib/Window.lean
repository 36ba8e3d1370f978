import Mathlib.Data.List.Basic

/-!
The sender's window of a state-synchronization protocol, over any type of
states: numbered states are produced one after another, a bounded number of past
ones is kept, and an acknowledgement moves the base of later deltas to the
acknowledged state if that state is still kept.
-/

namespace Posh.Lib

universe u

structure Window (α : Type u) where
  num : Nat
  data : α
  acked : Nat
  held : Option α
  kept : List (Nat × α)
  log : List α

namespace Window

variable {α : Type u}

/-- Number `num + 1` becomes the current state; at most `cap` past ones stay. -/
def produce (cap : Nat) (a : α) (w : Window α) : Window α :=
  let kept := w.kept ++ [(w.num, w.data)]
  { w with
    num := w.num + 1, data := a,
    kept := if kept.length > cap then kept.drop 1 else kept,
    log := w.log ++ [a] }

/-- An acknowledgement of state `n`; stale and impossible ones are ignored. -/
def ack (n : Nat) (w : Window α) : Window α :=
  if n ≤ w.acked ∨ n > w.num then w
  else
    { w with
      acked := n,
      held := if n = w.num then some w.data else (w.kept.find? (·.1 == n)).map (·.2),
      kept := w.kept.filter (·.1 ≥ n) }

/-- The window tells the truth about the states produced so far. -/
structure Sound (w : Window α) : Prop where
  length_log : w.log.length = w.num + 1
  current : w.log[w.num]? = some w.data
  acked_le : w.acked ≤ w.num
  held : ∀ a, w.held = some a → w.log[w.acked]? = some a
  kept : ∀ p ∈ w.kept, w.log[p.1]? = some p.2

theorem Sound.produce {w : Window α} (h : w.Sound) (cap : Nat) (a : α) :
    (w.produce cap a).Sound where
  length_log := by simp [Window.produce, h.length_log]
  current := by
    rw [show (w.produce cap a).log = w.log ++ [a] from rfl,
      show (w.produce cap a).num = w.log.length from h.length_log.symm]
    simp [Window.produce]
  acked_le := Nat.le_succ_of_le h.acked_le
  held := fun b hb => by
    have old := h.held b hb
    exact (List.getElem?_append_left (List.getElem?_eq_some_iff.mp old).1).trans old
  kept := by
    intro p hp
    have mem : p ∈ w.kept ++ [(w.num, w.data)] := by
      simp only [Window.produce] at hp
      split at hp
      · exact List.mem_of_mem_drop hp
      · exact hp
    have old : w.log[p.1]? = some p.2 := by
      rcases List.mem_append.mp mem with old | last
      · exact h.kept p old
      · rw [List.mem_singleton.mp last]
        exact h.current
    exact (List.getElem?_append_left (List.getElem?_eq_some_iff.mp old).1).trans old

theorem Sound.ack {w : Window α} (h : w.Sound) (n : Nat) : (w.ack n).Sound := by
  unfold Window.ack
  split
  · exact h
  · rename_i fresh
    obtain ⟨_, known⟩ := not_or.mp fresh
    refine ⟨h.length_log, h.current, Nat.le_of_not_gt known, ?_,
      fun p hp => h.kept p (List.mem_of_mem_filter hp)⟩
    intro a ha
    simp only at ha
    split at ha
    · rename_i same
      cases ha
      rw [same]
      exact h.current
    · obtain ⟨p, found, rfl⟩ := Option.map_eq_some_iff.mp ha
      have num : p.1 = n := by simpa using List.find?_some found
      exact num ▸ h.kept p (List.mem_of_find?_eq_some found)

@[simp] theorem log_ack (w : Window α) (n : Nat) : (w.ack n).log = w.log := by
  unfold ack
  split <;> rfl

@[simp] theorem num_ack (w : Window α) (n : Nat) : (w.ack n).num = w.num := by
  unfold ack
  split <;> rfl

/-- An acknowledgement of a produced state never lowers the base and never
raises it past the acknowledged number. -/
theorem acked_ack (w : Window α) {n : Nat} (known : n ≤ w.num) :
    (w.ack n).acked = max w.acked n := by
  unfold ack
  split
  · rename_i ignored
    have stale : n ≤ w.acked := ignored.resolve_right (Nat.not_lt.mpr known)
    exact (Nat.max_eq_left stale).symm
  · rename_i fresh
    exact (Nat.max_eq_right (Nat.le_of_not_le (not_or.mp fresh).1)).symm

/-- A batch of acknowledgements, in arrival order. -/
def acks (ns : List Nat) (w : Window α) : Window α :=
  ns.foldl (fun w n => w.ack n) w

@[simp] theorem log_acks (w : Window α) (ns : List Nat) : (w.acks ns).log = w.log := by
  induction ns generalizing w with
  | nil => rfl
  | cons n ns ih => exact (ih (w.ack n)).trans (log_ack w n)

@[simp] theorem num_acks (w : Window α) (ns : List Nat) : (w.acks ns).num = w.num := by
  induction ns generalizing w with
  | nil => rfl
  | cons n ns ih => exact (ih (w.ack n)).trans (num_ack w n)

theorem Sound.acks {w : Window α} (h : w.Sound) (ns : List Nat) : (w.acks ns).Sound := by
  induction ns generalizing w with
  | nil => exact h
  | cons n ns ih => exact ih (h.ack n)

/-- Acknowledgements below `top` keep the base below `top`. -/
theorem acked_acks_le {w : Window α} {ns : List Nat} {top : Nat} (produced : top ≤ w.num)
    (base : w.acked ≤ top) (below : ∀ n ∈ ns, n ≤ top) : (w.acks ns).acked ≤ top := by
  induction ns generalizing w with
  | nil => exact base
  | cons n ns ih =>
    have le : n ≤ top := below n List.mem_cons_self
    refine ih (by simpa using produced) ?_ fun m hm => below m (List.mem_cons_of_mem n hm)
    rw [acked_ack w (Nat.le_trans le produced)]
    exact Nat.max_le.mpr ⟨base, le⟩

/-- Once the greatest of them is among the acknowledgements, it is the base. -/
theorem acked_acks_eq {w : Window α} {ns : List Nat} {top : Nat} (produced : top ≤ w.num)
    (base : w.acked ≤ top) (below : ∀ n ∈ ns, n ≤ top) (reached : w.acked = top ∨ top ∈ ns) :
    (w.acks ns).acked = top := by
  induction ns generalizing w with
  | nil => exact reached.resolve_right List.not_mem_nil
  | cons n ns ih =>
    have le : n ≤ top := below n List.mem_cons_self
    have acked := acked_ack w (Nat.le_trans le produced)
    refine ih (by simpa using produced) (acked ▸ Nat.max_le.mpr ⟨base, le⟩)
      (fun m hm => below m (List.mem_cons_of_mem n hm)) ?_
    rw [acked]
    rcases reached with done | mem
    · exact .inl (done ▸ Nat.max_eq_left (done ▸ le))
    · rcases List.mem_cons.mp mem with rfl | later
      · exact .inl (Nat.max_eq_right base)
      · exact .inr later

end Window

end Posh.Lib
