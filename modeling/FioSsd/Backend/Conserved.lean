import FioSsd.Backend.Machine

/-! # No unit is lost

From `init_io_u` on, every unit is linked on exactly one list of the job or in the hands of a
verifier thread, `IO_U_F_FREE` tells the lists that `__get_io_u` takes units from apart from the
busy list, and `cur_depth` is the length of the busy list (`Conserved`). -/

namespace FioSsd

open List Td Completion

variable {close : Int} {l : List Nat}

def Td.linked (td : Td) (held : List Nat) (u : Nat) : Nat :=
  td.ioUFreelist.count u + td.ioUBusylist.count u + td.ioURequeues.count u + td.verifyList.count u +
    held.count u

/-- The `n` units of a job are conserved. -/
structure Conserved (n : Nat) (td : Td) (held : List Nat) : Prop where
  /-- Each unit is on exactly one list, and nothing else is on a list. -/
  once : ∀ u, td.linked held u = if u < n then 1 else 0
  free : ∀ u, u ∈ td.ioUFreelist ∨ u ∈ td.ioURequeues → (td.ioUs u).free = true
  busy : ∀ u ∈ td.ioUBusylist, (td.ioUs u).free = false
  depth : td.curDepth = td.ioUBusylist.length

/-- The units are conserved, and the flags say which of them count in `cur_depth` and which a verifier
    thread will put back. -/
structure Pooled (n : Nat) (td : Td) (held : List Nat) : Prop extends Conserved n td held where
  few : n < 2 ^ 32
  counted : ∀ u ∈ td.ioUBusylist, (td.ioUs u).inCurDepth = true ∧ (td.ioUs u).freeDef = false
  away : ∀ u, u ∈ td.verifyList ∨ u ∈ held →
    (td.ioUs u).inCurDepth = false ∧ (td.ioUs u).freeDef = true

variable {n : Nat} {td td' : Td} {held held' : List Nat} {u v : Nat}

lemma count_erase_of_le_one (h : l.count u ≤ 1) (v : Nat) :
    (l.erase u).count v = if v = u then 0 else l.count v := by
  by_cases hv : v = u
  · rw [if_pos hv, hv, count_erase_self]
    omega
  · rw [if_neg hv, count_erase_of_ne hv]

lemma Td.linked_unlink (h : td.linked held u ≤ 1) (v : Nat) :
    (td.unlink u).linked (held.erase u) v = if v = u then 0 else td.linked held v := by
  unfold linked at h ⊢
  rw [unlink, count_erase_of_le_one (by omega), count_erase_of_le_one (by omega),
    count_erase_of_le_one (by omega), count_erase_of_le_one (by omega),
    count_erase_of_le_one (by omega)]
  split_ifs <;> rfl

lemma length_le_of_lt (h : l.Nodup) (hlt : ∀ u ∈ l, u < n) : l.length ≤ n := by
  have hsub : l ⊆ List.range n := fun u hu => mem_range.2 (hlt u hu)
  simpa using (subperm_of_subset h hsub).length_le

lemma Td.linked_relink {total : Nat} (h : td.linked held u ≤ 1)
    (htl : total = (td.unlink u).linked (held.erase u) v + [u].count v) :
    total = if v = u then 1 else td.linked held v := by
  rw [htl, linked_unlink h v]
  by_cases hv : v = u
  · rw [if_pos hv, if_pos hv, hv, count_singleton_self]
  · rw [if_neg hv, if_neg hv, count_eq_zero.2 (by simpa using hv), add_zero]

namespace Td

lemma only_busy (h : td.linked held u ≤ 1) (hu : u ∈ td.ioUBusylist) :
    (u ∉ td.ioUFreelist ∧ u ∉ td.ioURequeues) ∧ u ∉ td.verifyList ∧ u ∉ held := by
  have hpos := count_pos_iff.2 hu
  unfold linked at h
  refine ⟨⟨?_, ?_⟩, ?_, ?_⟩ <;> exact count_eq_zero.1 (by omega)

lemma only_free (h : td.linked held u ≤ 1) (hu : u ∈ td.ioUFreelist ∨ u ∈ td.ioURequeues) :
    u ∉ td.ioUBusylist ∧ u ∉ td.verifyList ∧ u ∉ held := by
  have hpos : 0 < td.ioUFreelist.count u + td.ioURequeues.count u := by
    rcases hu with hu | hu
    · exact Nat.add_pos_left (count_pos_iff.2 hu) _
    · exact Nat.add_pos_right _ (count_pos_iff.2 hu)
  unfold linked at h
  refine ⟨?_, ?_, ?_⟩ <;> exact count_eq_zero.1 (by omega)

lemma only_away (h : td.linked held u ≤ 1) (hu : u ∈ td.verifyList ∨ u ∈ held) :
    (u ∉ td.ioUFreelist ∧ u ∉ td.ioURequeues) ∧ u ∉ td.ioUBusylist := by
  have hpos : 0 < td.verifyList.count u + held.count u := by
    rcases hu with hu | hu
    · exact Nat.add_pos_left (count_pos_iff.2 hu) _
    · exact Nat.add_pos_right _ (count_pos_iff.2 hu)
  unfold linked at h
  refine ⟨⟨?_, ?_⟩, ?_⟩ <;> exact count_eq_zero.1 (by omega)

lemma linked_pos (h : u ∈ td.ioUFreelist ∨ u ∈ td.ioUBusylist ∨ u ∈ td.ioURequeues ∨
    u ∈ td.verifyList ∨ u ∈ held) : 0 < td.linked held u := by
  unfold linked
  simp only [← count_pos_iff] at h
  omega

end Td

namespace Conserved

section

variable (h : Conserved n td held)

include h

lemma le_one (u : Nat) : td.linked held u ≤ 1 := by
  rw [h.once u]
  split_ifs <;> omega

lemma lt_of_mem (hu : u ∈ td.ioUFreelist ∨ u ∈ td.ioUBusylist ∨
    u ∈ td.ioURequeues ∨ u ∈ td.verifyList ∨ u ∈ held) : u < n := by
  have hpos := linked_pos hu
  by_contra hn
  rw [h.once u, if_neg hn] at hpos
  omega

lemma busylist_nodup : td.ioUBusylist.Nodup := by
  rw [nodup_iff_count_le_one]
  intro u
  have hle := h.le_one u
  unfold linked at hle
  omega

lemma busylist_length : td.ioUBusylist.length ≤ n :=
  length_le_of_lt h.busylist_nodup fun _ hu => h.lt_of_mem (.inr (.inl hu))

end

end Conserved

namespace Pooled

section

variable (h : Pooled n td held)

include h

lemma same (heq : SamePool td td') : Pooled n td' held := by
  obtain ⟨hfrl, hbsy, hrqs, hvrf, hcur, hfr, hdef, hin⟩ := heq
  refine ⟨⟨fun u => ?_, fun u hu => ?_, fun u hu => ?_, ?_⟩, h.few, fun u hu => ?_, fun u hu => ?_⟩
  · rw [← h.once u]
    simp [linked, hfrl, hbsy, hrqs, hvrf]
  · rw [hfrl, hrqs] at hu
    exact (hfr u).trans (h.free u hu)
  · rw [hbsy] at hu
    exact (hfr u).trans (h.busy u hu)
  · rw [hcur, hbsy, h.depth]
  · rw [hbsy] at hu
    rw [hin, hdef]
    exact h.counted u hu
  · rw [hvrf] at hu
    rw [hin, hdef]
    exact h.away u hu

lemma move
    (hlnk : ∀ v, td'.linked held' v = if v = u then 1 else td.linked held v) (hu : u < n)
    (hoth : ∀ v, v ≠ u → td'.ioUs v = td.ioUs v)
    (hfr : ∀ v, v ≠ u → v ∈ td'.ioUFreelist ∨ v ∈ td'.ioURequeues →
      v ∈ td.ioUFreelist ∨ v ∈ td.ioURequeues)
    (hbs : ∀ v, v ≠ u → v ∈ td'.ioUBusylist → v ∈ td.ioUBusylist)
    (haw : ∀ v, v ≠ u → v ∈ td'.verifyList ∨ v ∈ held' → v ∈ td.verifyList ∨ v ∈ held)
    (huf : u ∈ td'.ioUFreelist ∨ u ∈ td'.ioURequeues → (td'.ioUs u).free)
    (hub : u ∈ td'.ioUBusylist → (td'.ioUs u).free = false ∧ (td'.ioUs u).inCurDepth = true ∧
      (td'.ioUs u).freeDef = false) (huw : u ∈ td'.verifyList ∨ u ∈ held' →
      (td'.ioUs u).inCurDepth = false ∧ (td'.ioUs u).freeDef = true)
    (hdp : td'.curDepth = td'.ioUBusylist.length) : Pooled n td' held' := by
  refine ⟨⟨fun v => ?_, fun v hv => ?_, fun v hv => ?_, hdp⟩, h.few, fun v hv => ?_, fun v hv => ?_⟩
  · rw [hlnk v, h.once v]
    by_cases hvu : v = u
    · rw [if_pos hvu, hvu, if_pos hu]
    · rw [if_neg hvu]
  · by_cases hvu : v = u
    · subst hvu
      exact huf hv
    · rw [hoth v hvu]
      exact h.free v (hfr v hvu hv)
  · by_cases hvu : v = u
    · subst hvu
      exact (hub hv).1
    · rw [hoth v hvu]
      exact h.busy v (hbs v hvu hv)
  · by_cases hvu : v = u
    · subst hvu
      exact (hub hv).2
    · rw [hoth v hvu]
      exact h.counted v (hbs v hvu hv)
  · by_cases hvu : v = u
    · subst hvu
      exact huw hv
    · rw [hoth v hvu]
      exact h.away v (haw v hvu hv)

lemma depthWithout
    (hu : u ∈ td.ioUBusylist ∨ (td.ioUs u).inCurDepth = false) :
    td.depthWithout u = (td.ioUBusylist.erase u).length := by
  unfold Td.depthWithout
  by_cases hbs : u ∈ td.ioUBusylist
  · have hpos := length_pos_of_mem hbs
    have hle := h.busylist_length
    have hfew := h.few
    rw [if_pos (h.counted u hbs).1, length_erase_of_mem hbs, h.depth]
    unfold dec32
    omega
  · have hin := hu.resolve_left hbs
    rw [if_neg (by simp [hin]), erase_of_not_mem hbs, h.depth]

lemma linkFree (hn : u < n) (hu : u ∈ td.ioUBusylist ∨ (td.ioUs u).inCurDepth = false) :
    Pooled n (td.linkFree u) (held.erase u) := by
  have hlnk : ∀ v, (td.linkFree u).linked (held.erase u) v =
      if v = u then 1 else td.linked held v := by
    refine fun v => Td.linked_relink (h.le_one u) ?_
    simp only [Td.linked, Td.linkFree, Td.unlink, Td.setIoU, count_cons, count_nil]
    omega
  -- the unit is on the free list now, so it is on no other
  have hon := Td.only_free (by rw [hlnk u, if_pos rfl]) (.inl (.head _))
  refine h.move hlnk hn (fun v hv => by simp [Td.linkFree, Td.unlink, Td.setIoU, hv]) ?_
    (fun v _ hmem => mem_of_mem_erase hmem) (fun v _ => .imp mem_of_mem_erase
      mem_of_mem_erase) (fun _ => by simp [Td.linkFree, Td.unlink, Td.setIoU])
    (fun hmem => absurd hmem hon.1) (fun hmem => absurd hmem (not_or.2 hon.2))
    (h.depthWithout hu)
  rintro v hv (hmem | hmem)
  · exact .inl (mem_of_mem_erase ((mem_cons.1 hmem).resolve_left hv))
  · exact .inr (mem_of_mem_erase hmem)

lemma requeueIoU (hu : u ∈ td.ioUBusylist) :
    Pooled n (td.requeueIoU u) held := by
  have hhl := erase_of_not_mem (Td.only_busy (h.le_one u) hu).2.2
  have hlnk : ∀ v, (td.requeueIoU u).linked held v = if v = u then 1 else td.linked held v := by
    refine fun v => Td.linked_relink (h.le_one u) ?_
    rw [hhl]
    simp only [Td.linked, Td.requeueIoU, Td.unlink, Td.setIoU, count_append]
    omega
  have hmem : u ∈ (td.requeueIoU u).ioURequeues := mem_append_right _ (.head _)
  have hon := Td.only_free (by rw [hlnk u, if_pos rfl]) (.inr hmem)
  refine h.move hlnk (h.lt_of_mem (.inr (.inl hu)))
    (fun v hv => by simp [Td.requeueIoU, Td.unlink, Td.setIoU, hv]) ?_
    (fun v _ hmem => mem_of_mem_erase hmem) (fun v _ => .imp_left mem_of_mem_erase)
    (fun _ => by simp [Td.requeueIoU, Td.unlink, Td.setIoU])
    (fun hmem => absurd hmem hon.1) (fun hmem => absurd hmem (not_or.2 hon.2))
    (h.depthWithout (.inl hu))
  rintro v hv (hmem | hmem)
  · exact .inl (mem_of_mem_erase hmem)
  · rcases mem_append.1 hmem with hmem | hmem
    · exact .inr (mem_of_mem_erase hmem)
    · exact absurd (mem_singleton.1 hmem) hv

lemma handOver (hu : u ∈ td.ioUBusylist) :
    Pooled n (td.handOver u) held := by
  have hhl := erase_of_not_mem (Td.only_busy (h.le_one u) hu).2.2
  have hlnk : ∀ v, (td.handOver u).linked held v = if v = u then 1 else td.linked held v := by
    refine fun v => Td.linked_relink (h.le_one u) ?_
    rw [hhl]
    simp only [Td.linked, Td.handOver, Td.unlink, Td.setIoU, count_append]
    omega
  have hmem : u ∈ (td.handOver u).verifyList := mem_append_right _ (.head _)
  have hon := Td.only_away (by rw [hlnk u, if_pos rfl]) (.inl hmem)
  refine h.move hlnk (h.lt_of_mem (.inr (.inl hu)))
    (fun v hv => by simp [Td.handOver, Td.unlink, Td.setIoU, hv])
    (fun v _ => .imp mem_of_mem_erase mem_of_mem_erase)
    (fun v _ hmem => mem_of_mem_erase hmem) ?_
    (fun hmem => absurd hmem (not_or.2 hon.1)) (fun hmem => absurd hmem hon.2)
    (fun _ => by simp [Td.handOver, Td.unlink, Td.setIoU]) (h.depthWithout (.inl hu))
  rintro v hv (hmem | hmem)
  · rcases mem_append.1 hmem with hmem | hmem
    · exact .inl (mem_of_mem_erase hmem)
    · exact absurd (mem_singleton.1 hmem) hv
  · exact .inr hmem

lemma handOut (hu : u ∈ td.ioUFreelist ∨ u ∈ td.ioURequeues) :
    Pooled n (td.handOut u) held := by
  obtain ⟨hbs, -, hhl⟩ := Td.only_free (h.le_one u) hu
  have hlnk : ∀ v, (td.handOut u).linked held v = if v = u then 1 else td.linked held v := by
    refine fun v => Td.linked_relink (h.le_one u) ?_
    rw [erase_of_not_mem hhl]
    simp only [Td.linked, Td.handOut, Td.unlink, Td.setIoU, count_cons, count_nil]
    omega
  have hon := Td.only_busy (by rw [hlnk u, if_pos rfl]) mem_cons_self
  have hn := h.lt_of_mem (by tauto)
  refine h.move hlnk hn (fun v hv => by simp [Td.handOut, Td.unlink, Td.setIoU, hv])
    (fun v _ => .imp mem_of_mem_erase mem_of_mem_erase)
    (fun v hv hmem => mem_of_mem_erase ((mem_cons.1 hmem).resolve_left hv))
    (fun v _ => .imp_left mem_of_mem_erase) (fun hmem => absurd hmem (not_or.2 hon.1))
    (fun _ => by simp [Td.handOut, Td.unlink, Td.setIoU])
    (fun hmem => absurd hmem (not_or.2 hon.2)) ?_
  -- there is room for one more busy unit
  have hrm : (u :: td.ioUBusylist).length ≤ n := by
    refine length_le_of_lt (nodup_cons.2 ⟨hbs, h.busylist_nodup⟩) fun v hv => ?_
    rcases mem_cons.1 hv with rfl | hv
    · exact hn
    · exact h.lt_of_mem (.inr (.inl hv))
  have hfew := h.few
  rw [length_cons] at hrm
  show (td.curDepth + 1) % 2 ^ 32 = (td.ioUBusylist.erase u).length + 1
  rw [erase_of_not_mem hbs, h.depth]
  omega

lemma splice :
    Pooled n { td with verifyList := [] } (held ++ td.verifyList) := by
  refine ⟨⟨fun u => ?_, h.free, h.busy, h.depth⟩, h.few, h.counted, fun u hu => h.away u ?_⟩
  · rw [← h.once u]
    simp only [linked, count_append, count_nil]
    omega
  · rcases hu with hu | hu
    · exact absurd hu not_mem_nil
    · exact (mem_append.1 hu).symm

end

end Pooled

section

variable (h : Pooled n td held)

include h

lemma Pooled.putIoU (hn : u < n) (hu : u ∈ td.ioUBusylist ∨ (td.ioUs u).inCurDepth = false)
    (hr : td.putIoU u close = .ok td') :
    Pooled n td' (held.erase u) ∧ td'.ioUBusylist = td.ioUBusylist.erase u := by
  obtain ⟨td1, heq, -, rfl⟩ := putIoU_cases hr
  refine ⟨(h.same heq).linkFree hn ?_, by rw [← heq.busylist]; rfl⟩
  rwa [heq.busylist, heq.inCurDepth]

lemma Pooled.putBusy (hu : u ∈ td.ioUBusylist) (hr : td.putIoU u close = .ok td') :
    Pooled n td' held ∧ td'.ioUBusylist = td.ioUBusylist.erase u := by
  have hput := h.putIoU (h.lt_of_mem (.inr (.inl hu))) (.inl hu) hr
  rwa [erase_of_not_mem (only_busy (h.le_one u) hu).2.2] at hput

lemma Pooled.clearIoU (hu : u ∈ td.ioUBusylist) (hr : td.clearIoU u close = .ok td') :
    Pooled n td' held ∧ td'.ioUBusylist = td.ioUBusylist.erase u := by
  have hcl : Pooled n (td.setIoU u { td.ioUs u with flight := false }) held :=
    h.same (.setIoU rfl rfl rfl)
  exact hcl.putBusy hu hr

lemma Pooled.verifyIoUAsync (hu : u ∈ td.ioUBusylist) (hr : td.verifyIoUAsync u close = .ok td') :
    Pooled n td' held ∧ td'.ioUBusylist = td.ioUBusylist.erase u ∧
      (td'.ioUs u).inCurDepth = false := by
  obtain ⟨td1, heq, -, rfl⟩ := Td.verifyIoUAsync_cases hr
  refine ⟨(h.same heq).handOver (heq.busylist ▸ hu), by rw [← heq.busylist]; rfl, ?_⟩
  simp [Td.handOver, Td.unlink, Td.setIoU]

lemma Pooled.getIoU (hr : td.getIoU = .ok (some u, td')) :
    Pooled n td' held ∧ u ∉ td.ioUBusylist ∧ td'.ioUBusylist = u :: td.ioUBusylist := by
  obtain ⟨td1, heq, -, -, hmem, rfl⟩ := getIoU_handsOut hr
  have hbs := (only_free (h.le_one u) hmem).1
  rw [← heq.freelist, ← heq.requeues] at hmem
  refine ⟨(h.same heq).handOut hmem, hbs, ?_⟩
  show u :: td1.ioUBusylist.erase u = u :: td.ioUBusylist
  rw [heq.busylist, erase_of_not_mem hbs]

end

def Completion.active : Completion → Option Nat
  | .idle => none
  | .completing u => some u
  | .landed u => some u
  | .handled _ => none

namespace Machine

def claims (m : Machine) : List Nat :=
  m.hand.unit.toList ++ m.completion.active.toList ++ m.accepted

/-- The pool is in order, each claimed unit is busy and claimed once, and a unit that was handled is
    busy or does not count in `cur_depth` any more. -/
structure Sound (n : Nat) (m : Machine) : Prop where
  pool : Pooled n m.td m.held
  nodup : m.claims.Nodup
  busy : m.claims ⊆ m.td.ioUBusylist
  handled : ∀ u, m.completion = .handled u →
    u < n ∧ u ∉ m.claims ∧ (u ∈ m.td.ioUBusylist ∨ (m.td.ioUs u).inCurDepth = false)

lemma subset_erase {busy : List Nat} (h : l ⊆ busy) (hu : u ∉ l) : l ⊆ busy.erase u :=
  fun _ hv => (mem_erase_of_ne (ne_of_mem_of_not_mem hv hu)).2 (h hv)

lemma Sound.release {hand : Hand} {accepted : List Nat}
    (h : Sound n ⟨td, hand, .idle, accepted, held⟩) (hhn : hand.unit = some u)
    (hpl : Pooled n td' held ∧ td'.ioUBusylist = td.ioUBusylist.erase u) :
    Sound n ⟨td', .empty, .idle, accepted, held⟩ := by
  have hnd := h.nodup
  have hbs := h.busy
  simp only [claims, hhn, active, Option.toList, append_nil, cons_append, nil_append] at hnd hbs
  refine ⟨hpl.1, (nodup_cons.1 hnd).2, ?_, nofun⟩
  rw [hpl.2]
  exact subset_erase (subset_of_cons_subset hbs) (nodup_cons.1 hnd).1

variable {o : ThreadOptions} {act : Act} {m m' : Machine}

lemma Sound.of_active (h : Sound n m) (hu : m.completion.active = some u) :
    u ∈ m.td.ioUBusylist ∧ u ∉ m.hand.unit.toList ++ m.accepted ∧
      (m.hand.unit.toList ++ m.accepted).Nodup ∧
      m.hand.unit.toList ++ m.accepted ⊆ m.td.ioUBusylist := by
  have hnd := h.nodup
  have hbs := h.busy
  simp only [claims, hu, Option.toList_some, append_assoc, cons_append, nil_append] at hnd hbs
  obtain ⟨hnot, hrs⟩ := nodup_cons.1 (nodup_middle.1 hnd)
  have hall := List.Subset.trans perm_middle.symm.subset hbs
  exact ⟨hall (.head _), hnot, hrs, subset_of_cons_subset hall⟩

lemma Sound.step (h : Sound n m) (hst : Step o act m m') : Sound n m' := by
  have hnd := h.nodup
  have hbs := h.busy
  cases hst with
  | edit pool flights same =>
    refine ⟨h.pool.same pool, h.nodup, ?_, fun u hu => ?_⟩
    · intro u hu
      exact pool.busylist ▸ h.busy hu
    · have hun := h.handled u hu
      rwa [← pool.busylist, ← pool.inCurDepth] at hun
  | take run =>
    -- the unit was not on the busy list, so that nobody has claimed it
    obtain ⟨hpl, hfr, hls⟩ := h.pool.getIoU run
    refine ⟨hpl, nodup_cons.2 ⟨fun hu => hfr (hbs hu), hnd⟩, ?_, nofun⟩
    intro v hv
    rw [hls]
    exact cons_subset_cons _ hbs hv
  | drop run => exact h.release rfl (h.pool.putBusy (hbs (.head _)) run)
  | queue caller run =>
    obtain ⟨-, heq, -⟩ := tdIoQueue_cases run
    refine ⟨h.pool.same heq, hnd, ?_, nofun⟩
    intro v hv
    exact heq.busylist ▸ hbs hv
  | accept => exact ⟨h.pool, hnd, hbs, nofun⟩
  | busy loop =>
    have hu := hbs (.head _)
    exact h.release rfl ⟨h.pool.requeueIoU hu, rfl⟩
  | again => exact ⟨h.pool, hnd, hbs, nofun⟩
  | negative neg loop run => exact h.release rfl (h.pool.putBusy (hbs (.head _)) run)
  | leave unknown =>
    exact ⟨h.pool, (nodup_cons.1 hnd).2, subset_of_cons_subset hbs, nofun⟩
  | failed error loop run => exact h.release rfl (h.pool.clearIoU (hbs (.head _)) run)
  | failedSync error =>
    exact ⟨h.pool, (nodup_cons.1 hnd).2, subset_of_cons_subset hbs, nofun⟩
  | zero error resid bytes loop run =>
    exact h.release rfl (h.pool.putBusy (hbs (.head _)) run)
  | short error resid bytes loop =>
    have hu := hbs (.head _)
    exact h.release rfl ⟨(h.pool.same (.advance _ _)).requeueIoU hu, rfl⟩
  | done error unit =>
    rcases unit with rfl | rfl
    · exact ⟨h.pool, hnd, hbs, nofun⟩
    · exact ⟨h.pool.same (.advance _ _), hnd, hbs, nofun⟩
  | @reap td u hand accepted held mem =>
    have hpr : claims ⟨td, hand, .completing u, accepted.erase u, held⟩ |>.Perm
        (claims ⟨td, hand, .idle, accepted, held⟩) := by
      simp only [claims, active, Option.toList, append_nil, append_assoc]
      exact (perm_cons_erase mem).symm.append_left _
    exact ⟨h.pool, hpr.nodup_iff.2 hnd, List.Subset.trans hpr.subset hbs, nofun⟩
  | land flight =>
    refine ⟨h.pool.same (.setIoU rfl rfl rfl), hnd, hbs, nofun⟩
  | @handle td u hand accepted held =>
    obtain ⟨hu, hnot, hrs, hsub⟩ := h.of_active rfl
    refine ⟨h.pool, ?_, ?_, fun v hv => ?_⟩
    · simpa [claims, active] using hrs
    · simpa [claims, active] using hsub
    · obtain rfl := handled.inj hv
      refine ⟨h.pool.lt_of_mem (.inr (.inl hu)), ?_, .inl hu⟩
      simpa [claims, active] using hnot
  | @async td td' u close hand accepted held run =>
    -- the unit goes from the busy list to the verify list
    obtain ⟨hu, hnot, hrs, hsub⟩ := h.of_active rfl
    obtain ⟨hpl, hls, hin⟩ := h.pool.verifyIoUAsync hu run
    refine ⟨hpl, ?_, ?_, fun v hv => ?_⟩
    · simpa [claims, active] using hrs
    · have hlf := subset_erase hsub hnot
      rw [← hls] at hlf
      simpa [claims, active] using hlf
    · obtain rfl := handled.inj hv
      refine ⟨h.pool.lt_of_mem (.inr (.inl hu)), ?_, .inr hin⟩
      simpa [claims, active] using hnot
  | keep deferred => exact ⟨h.pool, hnd, hbs, nofun⟩
  | @putBack td td' u close hand accepted held deferred run =>
    obtain ⟨hn, hnot, hu⟩ := h.handled u rfl
    obtain ⟨hpl, hls⟩ := h.pool.putIoU hn hu run
    -- nobody holds the unit: a verifier thread that did has put it back
    have hhl : u ∉ held := fun hmem =>
      absurd (h.pool.away u (.inr hmem)).2 (by simp [deferred])
    rw [erase_of_not_mem hhl] at hpl
    refine ⟨hpl, hnd, ?_, nofun⟩
    intro v hv
    rw [hls]
    exact subset_erase hbs hnot hv
  | @cancel td td' u close accepted held mem run =>
    obtain ⟨hpl, hls⟩ := h.pool.putBusy mem run
    refine ⟨hpl, hnd.erase u, ?_, nofun⟩
    intro v hv
    rw [hls]
    exact subset_erase (List.Subset.trans erase_subset hbs) hnd.not_mem_erase hv
  | splice => exact ⟨h.pool.splice, hnd, hbs, h.handled⟩
  | @verified td td' u close hand completion accepted held mem run =>
    have hin := (h.pool.away u (.inr mem)).1
    have hfre := (only_away (h.pool.le_one u) (.inr mem)).2
    obtain ⟨hpl, hls⟩ :=
      h.pool.putIoU (h.pool.lt_of_mem (.inr (.inr (.inr (.inr mem))))) (.inr hin) run
    rw [erase_of_not_mem hfre] at hls
    refine ⟨hpl, hnd, ?_, fun v hv => ?_⟩
    · intro v hv
      rw [hls]
      exact hbs hv
    · have hun := h.handled v hv
      rwa [← hls, ← putIoU_inCurDepth run v] at hun

end Machine

def Td.initLists (td : Td) : Td :=
  { td with
    ioUFreelist := [], ioUBusylist := [], ioURequeues := [], verifyList := [], curDepth := 0 }

def Td.initUnits (td : Td) : Nat → Td
  | 0 => td
  | i + 1 =>
    let td := td.initUnits i
    { td.setIoU i default with ioUFreelist := i :: td.ioUFreelist }

variable (o : ThreadOptions)

/-- `max_units` of `init_io_u`: the `unsigned int iodepth` as an `int`. -/
def ThreadOptions.maxUnits : Nat :=
  ((BitVec.ofNat 32 o.iodepth).toInt).toNat

/-- `init_io_u`; `room` is the number of units there is memory for. -/
def Td.initIoU (td : Td) (room : Nat) : Td :=
  td.initLists.initUnits (min o.maxUnits room)

def Machine.start (td : Td) (room : Nat) : Machine :=
  ⟨td.initIoU o room, .empty, .idle, [], []⟩

lemma maxUnits_lt : o.maxUnits < 2 ^ 31 := by
  have hlt := BitVec.toInt_lt (x := BitVec.ofNat 32 o.iodepth)
  unfold ThreadOptions.maxUnits
  omega

lemma Td.initUnits_spec (td : Td) (i : Nat) :
    (∀ u, (td.initLists.initUnits i).ioUFreelist.count u = if u < i then 1 else 0) ∧
      (∀ u, u < i → (td.initLists.initUnits i).ioUs u = default) ∧
      (td.initLists.initUnits i).ioUBusylist = [] ∧ (td.initLists.initUnits i).ioURequeues = [] ∧
      (td.initLists.initUnits i).verifyList = [] ∧ (td.initLists.initUnits i).curDepth = 0 := by
  induction i with
  | zero => exact ⟨fun _ => rfl, fun u hu => absurd hu (by omega), rfl, rfl, rfl, rfl⟩
  | succ i ih =>
    obtain ⟨hcnt, hun, hrs⟩ := ih
    refine ⟨fun u => ?_, fun u hu => ?_, hrs⟩
    · show (i :: (td.initLists.initUnits i).ioUFreelist).count u = _
      rw [count_cons, hcnt u]
      by_cases hu : u = i
      · subst hu
        simp
      · have hiff : u < i + 1 ↔ u < i := by omega
        simp [hiff, Ne.symm hu]
    · by_cases hi : u = i
      · subst hi
        simp [initUnits, setIoU]
      · simp only [initUnits, setIoU, Function.update_of_ne hi]
        exact hun u (by omega)

lemma Machine.sound_start (td : Td) (room : Nat) :
    Sound (min o.maxUnits room) (start o td room) := by
  obtain ⟨hcnt, hun, hbs, hrqs, hvrf, hdp⟩ := td.initUnits_spec (min o.maxUnits room)
  have hfew := maxUnits_lt o
  refine ⟨⟨⟨fun u => ?_, fun u hu => ?_, fun u hu => ?_, ?_⟩, by omega, fun u hu => ?_,
    fun u hu => ?_⟩, nodup_nil, nil_subset _, fun u hu => absurd hu (by simp [start])⟩
  · show (td.initLists.initUnits _).linked [] u = _
    simp [linked, hcnt, hbs, hrqs, hvrf]
  · have hu : u ∈ (td.initLists.initUnits (min o.maxUnits room)).ioUFreelist := by
      rcases hu with hu | hu
      · exact hu
      · exact absurd (hrqs ▸ hu) not_mem_nil
    have hlt : u < min o.maxUnits room := by
      by_contra hge
      have hpos := count_pos_iff.2 hu
      rw [hcnt u, if_neg hge] at hpos
      omega
    show ((td.initLists.initUnits _).ioUs u).free = true
    rw [hun u hlt]
    rfl
  · exact absurd (hbs ▸ hu) not_mem_nil
  · exact hdp.trans (congrArg List.length hbs).symm
  · exact absurd (hbs ▸ hu) not_mem_nil
  · rcases hu with hu | hu
    · exact absurd (hvrf ▸ hu) not_mem_nil
    · exact absurd hu not_mem_nil

lemma Machine.Sound.runs {n : Nat} {o : ThreadOptions} {P : Machine → Act → Prop} {m m' : Machine}
    (h : Sound n m) (hrn : Runs o P m m') : Sound n m' := by
  induction hrn with
  | refl => exact h
  | tail _ hst ih =>
    obtain ⟨act, -, hst⟩ := hst
    exact ih.step hst

/-- **The units of a job are conserved** in every interleaving of the I/O loops, the completion code
    and the verifier threads, whatever the engine answers. -/
theorem ioUs_conserved (td : Td) (room : Nat) {m : Machine}
    (h : Machine.Runs o (fun _ _ => True) (.start o td room) m) :
    Conserved (min o.maxUnits room) m.td m.held :=
  ((Machine.sound_start o td room).runs h).pool.toConserved

def openJob : Td := {
  hist := { files := fun _ => { isOpen := true, fdOpen := true, references := 2 } } }

def readsFile (td : Td) : Td := td.setIoU 0 { td.ioUs 0 with file := some 0 }

def wholeRead : QueueHook := ⟨fioQCompleted, ⟨0, 0, fun _ => 0⟩, 0, 0⟩

set_option synthInstance.maxSize 500 in
/-- `io_completed` hands a read over to the verifier threads, and one of them puts it back before
    `ios_completed` asks for `IO_U_F_FREE_DEF`: it is put back twice and stays one unit. -/
theorem ioUs_conserved_putTwice :
    ∃ m td, Machine.Runs default (fun _ _ => True) (.start default openJob 1) m ∧
      m.completion = .handled 0 ∧ m.td.ioUFreelist = [0] ∧ m.td.putIoU 0 0 = .ok td ∧
      Conserved 1 td [] := by
  obtain ⟨td1, htk, td2, hqu, herr, hfli, td3, hasy, hls, td4, hput, hdef, hfr, td5, hag,
      -⟩ : ∃ td1, (openJob.initIoU default 1).getIoU = .ok (some 0, td1) ∧
      ∃ td2, (readsFile td1).tdIoQueue default 0 wholeRead = .ok td2 ∧
        (td2.ioUs 0).error = 0 ∧ (td2.ioUs 0).flight = true ∧
      ∃ td3, (td2.land 0).verifyIoUAsync 0 0 = .ok td3 ∧ td3.verifyList = [0] ∧
      ∃ td4, Td.putIoU { td3 with verifyList := [] } 0 0 = .ok td4 ∧
        (td4.ioUs 0).freeDef = false ∧ td4.ioUFreelist = [0] ∧
      ∃ td5, td4.putIoU 0 0 = .ok td5 ∧ True := by decide +kernel
  have step : ∀ {m m' m'' : Machine} {act : Act},
      Machine.Runs default (fun _ _ => True) m m' → Machine.Step default act m' m'' →
      Machine.Runs default (fun _ _ => True) m m'' :=
    fun hrn hst => hrn.tail ⟨_, trivial, hst⟩
  have hread : Machine.Runs default (fun _ _ => True) (.start default openJob 1)
      ⟨td1, .taken 0, .idle, [], []⟩ := step .refl (.take htk)
  have hpl : SamePool td1 (readsFile td1) := .setIoU rfl rfl rfl
  have hflg : SameFlights td1 (readsFile td1) := Td.setIoU_flag (·.flight) rfl
  have hans := step (step hread (.edit hpl hflg nofun)) (.queue .doVerify hqu)
  have hhnd := step (step (step hans (.done herr (.inl rfl))) (.land hfli)) (.async hasy)
  have hbc := step (step hhnd .splice) (.verified (by rw [hls]; decide) hput)
  have htw := step hbc (.putBack hdef hag)
  have hcns := ioUs_conserved _ _ _ htw
  rw [hls] at hcns
  exact ⟨_, td5, hbc, rfl, hfr, hag, hcns⟩

end FioSsd
