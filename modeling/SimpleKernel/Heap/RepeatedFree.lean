import SimpleKernel.Heap.WellFormed

/-!
# Freeing twice

After `kfree` a block may be absorbed into the block before it, and its header stays behind in
the payload of that one. A later `kfree` of the same pointer reads the mark in that header. It
still says free: coalescing writes the sizes and links of listed blocks only, and whatever is
listed later has its header where a header was at the start. So a repetition does nothing, and a
sequence of frees ends as it does without its repetitions (`repeated_kfree`).
-/

namespace SimpleKernel.Heap
set_option autoImplicit false
open Lib

/-- The pointer of a block that is handed out. -/
def LivePtr (bs : List Block) (ptr : Nat) : Prop := ∃ b ∈ bs, b.free = false ∧ ptr = b.addr + 24

/-- `kfree` of each pointer in turn. -/
def kfreeAll (s : Machine) (ptrs : List Nat) : Option Machine := ptrs.foldlM kfree s

/-- The heap after the pointers `done` of the blocks `bs` were freed: the list is `now`, and the
headers of the freed blocks still say so. -/
structure Freeing (regions : List Seg) (bs : List Block) (done : List Nat) (s : Machine) (now : List Block) : Prop where
  well : WellFormed s regions now
  addrs : ∀ c ∈ now, ∃ b ∈ bs, b.addr = c.addr
  waiting : ∀ b ∈ bs, b.free = false → b.addr + 24 ∉ done → b ∈ now
  stale : ∀ b ∈ bs, b.addr + 24 ∈ done → blockFree s.mem b.addr = true

theorem freeing_start {s : Machine} {regions : List Seg} {bs : List Block} (h : WellFormed s regions bs) :
    Freeing regions bs [] s bs :=
  ⟨h, fun c hc => ⟨c, hc, rfl⟩, fun _ hb _ _ => hb, fun _ _ member => absurd member List.not_mem_nil⟩

section

variable {regions : List Seg} {bs now : List Block} {done ptrs : List Nat} {s : Machine} {b : Block} {ptr : Nat}

/-- The block that a pointer is found to belong to. -/
theorem Layout.block_of_ptr (layout : Layout regions bs) (member : b ∈ bs) :
    sub64 (b.addr + 24) sizeofHeapBlock = b.addr := by
  have fin := layout.fin_le member
  unfold Block.fin at fin
  rw [sizeofHeapBlock_eq, sub64_of_le (by omega) (by omega), Nat.add_sub_cancel]

/-- The mark of a header is no size and no link of a header of the list. -/
theorem Layout.mark_apart (layout : Layout regions bs) (member : b ∈ bs) :
    ¬ ∃ c ∈ bs, linkBytes c.addr (b.addr + 16) := by
  intro hit
  obtain ⟨c, hc, ha⟩ := hit
  unfold linkBytes at ha
  by_cases same : c = b
  · rw [same] at ha
    omega
  · have apart := layout.apart hc member same
    unfold Block.fin at apart
    omega

/-- **A second `kfree`** does nothing. -/
theorem Freeing.again (layout : Layout regions bs) (h : Freeing regions bs done s now) (live : LivePtr bs ptr)
    (freed : ptr ∈ done) : kfree s ptr = some s := by
  obtain ⟨b, hb, -, rfl⟩ := live
  have mark := h.stale b hb freed
  rw [kfree, if_neg (Nat.succ_ne_zero _)]
  dsimp only
  rw [layout.block_of_ptr hb, mark]
  rfl

/-- **The first `kfree`** of a pointer leaves the stale headers alone. -/
theorem Freeing.first (layout : Layout regions bs) (h : Freeing regions bs done s now) (live : LivePtr bs ptr)
    (fresh : ptr ∉ done) : ∃ s' now', kfree s ptr = some s' ∧ Freeing regions bs (ptr :: done) s' now' := by
  obtain ⟨b, hb, used, rfl⟩ := live
  obtain ⟨pre, post, rfl⟩ := List.append_of_mem (h.waiting b hb used fresh)
  obtain ⟨s', run, well, merges, -, -, same, mark⟩ := kfree_live h.well used
  refine ⟨s', _, run, well, fun c hc => ?_, fun c hc usedC waits => ?_, fun c hc freed => ?_⟩
  · obtain ⟨d, hd, addr, -⟩ := merges.addr_mem hc
    have old : ∃ e ∈ pre ++ b :: post, e.addr = d.addr := by
      simp only [List.mem_append, List.mem_cons] at hd
      rcases hd with hd | rfl | hd
      · exact ⟨d, by simp [hd], rfl⟩
      · exact ⟨b, by simp, rfl⟩
      · exact ⟨d, by simp [hd], rfl⟩
    obtain ⟨e, he, eq⟩ := old
    obtain ⟨f, hf, origin⟩ := h.addrs e he
    exact ⟨f, hf, origin.trans (eq.trans addr)⟩
  · rw [List.mem_cons, not_or] at waits
    have ne : c ≠ b := fun eq => waits.1 (by rw [eq])
    have listed := h.waiting c hc usedC waits.2
    apply (merges.used_iff usedC).2
    simp only [List.mem_append, List.mem_cons, ne, false_or] at listed ⊢
    exact listed.imp_right .inr
  · by_cases self : c.addr = b.addr
    · rw [self]
      exact mark
    · have earlier : c.addr + 24 ∈ done := (List.mem_cons.1 freed).resolve_left fun eq => self (by omega)
      rw [blockFree, same (c.addr + 16) fun hit => ?_]
      · exact h.stale c hc earlier
      · rcases hit with eq | ⟨d, hd, ha⟩
        · omega
        · obtain ⟨e, he, origin⟩ := h.addrs d hd
          exact layout.mark_apart hc ⟨e, he, origin ▸ ha⟩

/-- **The run.** From a heap with some pointers freed, a sequence of frees ends as it does without
the pointers freed before and without repetitions. -/
theorem Freeing.run (layout : Layout regions bs) (h : Freeing regions bs done s now)
    (live : ∀ ptr ∈ ptrs, LivePtr bs ptr) :
    ∃ s' now', kfreeAll s ptrs = some s' ∧ kfreeAll s (ptrs.filter (· ∉ done)).eraseDups = some s' ∧
      WellFormed s' regions now' := by
  induction ptrs generalizing done s now with
  | nil => exact ⟨s, now, rfl, rfl, h.well⟩
  | cons ptr ptrs ih =>
    obtain ⟨liveHead, liveTail⟩ := List.forall_mem_cons.1 live
    by_cases freed : ptr ∈ done
    · have skip := h.again layout liveHead freed
      obtain ⟨s', now', all, once, well⟩ := ih h liveTail
      refine ⟨s', now', ?_, ?_, well⟩
      · rw [kfreeAll, List.foldlM_cons, skip]
        exact all
      · rw [List.filter_cons_of_neg (by simpa using freed)]
        exact once
    · obtain ⟨s₁, now₁, step, h₁⟩ := h.first layout liveHead freed
      obtain ⟨s', now', all, once, well⟩ := ih h₁ liveTail
      have rest : (ptrs.filter (· ∉ done)).filter (fun q => !q == ptr) = ptrs.filter (· ∉ ptr :: done) := by
        rw [List.filter_filter]
        refine List.filter_congr fun q _ => ?_
        simp [beq_eq_decide]
      refine ⟨s', now', ?_, ?_, well⟩
      · rw [kfreeAll, List.foldlM_cons, step]
        exact all
      · rw [List.filter_cons_of_pos (by simpa using freed), List.eraseDups_cons, rest, kfreeAll, List.foldlM_cons, step]
        exact once

end

/-- **Repeated frees are harmless.** -/
theorem repeated_kfree (s : Machine) (regions : List Seg) (bs : List Block) (h : WellFormed s regions bs)
    (ptrs : List Nat) (live : ∀ ptr ∈ ptrs, LivePtr bs ptr) :
    ∃ s' bs', kfreeAll s ptrs = some s' ∧ kfreeAll s ptrs.eraseDups = some s' ∧ WellFormed s' regions bs' := by
  obtain ⟨s', now, all, once, well⟩ := (freeing_start h).run h.layout live
  rw [List.filter_eq_self.2 (by simp)] at once
  exact ⟨s', now, all, once, well⟩

/-- Two frees of one block of the page. -/
theorem repeated_kfree_page : ∃ s s', kmalloc pageHeap 64 = some (0x100018, s) ∧
    kfreeAll s [0x100018, 0x100018] = some s' ∧ kfreeAll s [0x100018] = some s' := by
  obtain ⟨s, run, well, -⟩ := @kmalloc_found pageHeap _ [] [] ⟨0x100000, 4072, true⟩ 64
    pageHeap_wellFormed (by decide) rfl (by decide) (by simp)
  have live : ∀ ptr ∈ [0x100018, 0x100018], LivePtr ([] ++ carve ⟨0x100000, 4072, true⟩ (alignUp 64) ++ []) ptr := by
    intro ptr member
    simp only [List.mem_cons, List.not_mem_nil, or_false, or_self] at member
    exact ⟨⟨0x100000, 64, false⟩, by decide, rfl, member⟩
  obtain ⟨s', -, all, once, -⟩ := repeated_kfree s _ _ well [0x100018, 0x100018] live
  exact ⟨s, s', run, all, once⟩

end SimpleKernel.Heap
