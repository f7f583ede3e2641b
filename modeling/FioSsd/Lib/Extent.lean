import Mathlib.Data.Set.Insert

/-! # Sets of extents

An extent is a run of points under a key, with a value attached to all of them. -/

structure Extent (K V : Type) where
  key : K
  (start len : Nat)
  val : V

namespace Extent

open Set

variable {K V : Type}

def stop (e : Extent K V) : Nat := e.start + e.len

def Covers (e : Extent K V) (k : K) (x : Nat) : Prop :=
  e.key = k ∧ e.start ≤ x ∧ x < e.stop

structure Within (e' e : Extent K V) : Prop where
  val_eq : e'.val = e.val
  covers : ∀ {k x}, e'.Covers k x → e.Covers k x

lemma Within.refl (e : Extent K V) : Within e e := ⟨rfl, id⟩

lemma Within.trans {e1 e2 e3 : Extent K V} (h : Within e1 e2) (h' : Within e2 e3) : Within e1 e3 :=
  ⟨h.val_eq.trans h'.val_eq, fun hc => h'.covers (h.covers hc)⟩

lemma covers_start {e : Extent K V} (h : 0 < e.len) : e.Covers e.key e.start :=
  ⟨rfl, le_refl _, by simp only [stop]; omega⟩

def before (e : Extent K V) (s : Nat) : Extent K V := { e with len := s - e.start }

def after (e : Extent K V) (t : Nat) : Extent K V := { e with start := t, len := e.stop - t }

def outside (e : Extent K V) (s t : Nat) : Set (Extent K V) :=
  {e' | e.start < s ∧ e' = e.before s ∨ t < e.stop ∧ e' = e.after t}

section Cut

variable {e e' : Extent K V} {s t x : Nat} {k : K}

lemma covers_before (h : s ≤ e.stop) : (e.before s).Covers k x ↔ e.Covers k x ∧ x < s := by
  simp only [Covers, before, stop] at h ⊢
  constructor
  · rintro ⟨hk, h1, h2⟩
    exact ⟨⟨hk, h1, by omega⟩, by omega⟩
  · rintro ⟨⟨hk, h1, h2⟩, h3⟩
    exact ⟨hk, h1, by omega⟩

lemma covers_after (h : e.start ≤ t) : (e.after t).Covers k x ↔ e.Covers k x ∧ t ≤ x := by
  simp only [Covers, after, stop]
  constructor
  · rintro ⟨hk, h1, h2⟩
    exact ⟨⟨hk, by omega, by omega⟩, h1⟩
  · rintro ⟨⟨hk, h1, h2⟩, h3⟩
    exact ⟨hk, h3, by omega⟩

lemma outside_eq_empty (h : s ≤ e.start) (ht : e.stop ≤ t) : e.outside s t = ∅ := by
  ext e'
  simp [outside, mem_empty_iff_false, show ¬e.start < s by omega,
    show ¬t < e.stop by omega]

lemma outside_eq_before (h : e.start < s) (ht : e.stop ≤ t) : e.outside s t = {e.before s} := by
  ext e'
  simp [outside, mem_singleton_iff, h, show ¬t < e.stop by omega]

lemma outside_eq_after (hs : s ≤ e.start) (h : t < e.stop) : e.outside s t = {e.after t} := by
  ext e'
  simp [outside, mem_singleton_iff, h, show ¬e.start < s by omega]

lemma outside_eq_pair (h : e.start < s) (ht : t < e.stop) :
    e.outside s t = {e.before s, e.after t} := by
  ext e'
  simp [outside, mem_ofPred_eq, mem_insert_iff, mem_singleton_iff, h, ht]

lemma covers_outside (h : s < e.stop) (ht : e.start < t) :
    (∃ e' ∈ e.outside s t, e'.Covers k x) ↔ e.Covers k x ∧ ¬(s ≤ x ∧ x < t) := by
  constructor
  · rintro ⟨e', ⟨_, rfl⟩ | ⟨_, rfl⟩, hc⟩
    · rw [covers_before h.le] at hc
      exact ⟨hc.1, by omega⟩
    · rw [covers_after ht.le] at hc
      exact ⟨hc.1, by omega⟩
  · rintro ⟨hc, hx⟩
    have hlow := hc.2.1
    have hhg := hc.2.2
    by_cases hxs : x < s
    · exact ⟨e.before s, .inl ⟨by omega, rfl⟩, (covers_before h.le).2 ⟨hc, hxs⟩⟩
    · exact ⟨e.after t, .inr ⟨by omega, rfl⟩, (covers_after ht.le).2 ⟨hc, by omega⟩⟩

lemma within_of_mem_outside (hs : s < e.stop) (ht : e.start < t) (h : e' ∈ e.outside s t) :
    Within e' e := by
  refine ⟨?_, fun hc => ((covers_outside hs ht).1 ⟨e', h, hc⟩).1⟩
  rcases h with ⟨_, rfl⟩ | ⟨_, rfl⟩ <;> rfl

end Cut

end Extent

namespace Extents

variable {K V : Type} {S T : Set (Extent K V)} {e e' w : Extent K V} {s t x : Nat} {k : K}

def Owned (S : Set (Extent K V)) (k : K) (x : Nat) : Prop := ∃ e ∈ S, e.Covers k x

def StartsAt (S : Set (Extent K V)) (k : K) (x : Nat) : Prop := ∃ e ∈ S, e.key = k ∧ e.start = x

structure Valid (S : Set (Extent K V)) : Prop where
  pos : ∀ {e}, e ∈ S → 0 < e.len
  disjoint : ∀ {e e' k x}, e ∈ S → e' ∈ S → e.Covers k x → e'.Covers k x → e = e'

def Below (T S : Set (Extent K V)) : Prop := ∀ e' ∈ T, ∃ e ∈ S, e'.Within e

lemma Below.refl (S : Set (Extent K V)) : Below S S := fun e he => ⟨e, he, .refl e⟩

lemma Below.trans {U : Set (Extent K V)} (h : Below S T) (h' : Below T U) : Below S U := by
  intro e he
  obtain ⟨e1, h1, hw1⟩ := h e he
  obtain ⟨e2, h2, hw2⟩ := h' e1 h1
  exact ⟨e2, h2, hw1.trans hw2⟩

lemma Valid.owned_of_startsAt (hS : Valid S) (h : StartsAt S k x) : Owned S k x := by
  obtain ⟨e, he, rfl, rfl⟩ := h
  exact ⟨e, he, Extent.covers_start (hS.pos he)⟩

lemma Valid.mono (hS : Valid S) (h : T ⊆ S) : Valid T :=
  ⟨fun he => hS.pos (h he), fun he he' => hS.disjoint (h he) (h he')⟩

def cut (S : Set (Extent K V)) (e : Extent K V) (s t : Nat) : Set (Extent K V) :=
  (S \ {e}) ∪ e.outside s t

lemma below_cut (h : e ∈ S) (hs : s < e.stop) (ht : e.start < t) : Below (cut S e s t) S := by
  rintro e' (⟨he', _⟩ | he')
  · exact ⟨e', he', .refl e'⟩
  · exact ⟨e, h, Extent.within_of_mem_outside hs ht he'⟩

lemma owned_cut (hS : Valid S) (he : e ∈ S) (hs : s < e.stop) (ht : e.start < t) :
    Owned (cut S e s t) k x ↔ Owned S k x ∧ ¬(e.Covers k x ∧ s ≤ x ∧ x < t) := by
  constructor
  · rintro ⟨e', ⟨he', hne⟩ | he', hc⟩
    · exact ⟨⟨e', he', hc⟩, fun h => hne (hS.disjoint he' he hc h.1)⟩
    · obtain ⟨hc', hx⟩ := (Extent.covers_outside hs ht).1 ⟨e', he', hc⟩
      exact ⟨⟨e, he, hc'⟩, fun h => hx h.2⟩
  · rintro ⟨⟨e', he', hc⟩, hx⟩
    by_cases heq : e' = e
    · subst heq
      obtain ⟨e1, h1, hc1⟩ := (Extent.covers_outside hs ht).2 ⟨hc, fun h => hx ⟨hc, h⟩⟩
      exact ⟨e1, .inr h1, hc1⟩
    · exact ⟨e', .inl ⟨he', heq⟩, hc⟩

lemma startsAt_cut (hS : Valid S) (h : e ∈ S) (hs : s < e.stop) (ht : e.start < t) :
    StartsAt (cut S e s t) k x ↔ StartsAt S k x ∧ ¬(k = e.key ∧ x = e.start ∧ s ≤ e.start) ∨
        k = e.key ∧ x = t ∧ t < e.stop := by
  constructor
  · rintro ⟨e', ⟨he', hne⟩ | ⟨hlt, rfl⟩ | ⟨hlt, rfl⟩, rfl, rfl⟩
    · refine .inl ⟨⟨e', he', rfl, rfl⟩, ?_⟩
      rintro ⟨hk, hx, _⟩
      have hc : e.Covers e'.key e'.start := by
        rw [hk, hx]
        exact Extent.covers_start (hS.pos h)
      exact hne (hS.disjoint he' h (Extent.covers_start (hS.pos he')) hc)
    · refine .inl ⟨⟨e, h, rfl, rfl⟩, ?_⟩
      rintro ⟨_, _, hle⟩
      omega
    · exact .inr ⟨rfl, rfl, hlt⟩
  · rintro (⟨⟨e', he', rfl, rfl⟩, hx⟩ | ⟨rfl, rfl, hlt⟩)
    · by_cases heq : e' = e
      · subst heq
        have hlt : e'.start < s := by
          by_contra hle
          exact hx ⟨rfl, rfl, by omega⟩
        exact ⟨e'.before s, .inr (.inl ⟨hlt, rfl⟩), rfl, rfl⟩
      · exact ⟨e', .inl ⟨he', heq⟩, rfl, rfl⟩
    · exact ⟨e.after x, .inr (.inr ⟨hlt, rfl⟩), rfl, rfl⟩

lemma diff_eq_cut : S \ {e} = cut S e e.start e.stop := by
  rw [cut, Extent.outside_eq_empty (le_refl _) (le_refl _), Set.union_empty]

lemma Valid.insert (hS : Valid S) (hw : 0 < w.len) (h : ∀ k x, w.Covers k x → ¬Owned S k x) :
    Valid (insert w S) := by
  refine ⟨?_, ?_⟩
  · rintro e (rfl | he)
    · exact hw
    · exact hS.pos he
  · rintro e1 e2 k x (rfl | h1) (rfl | h2) hc1 hc2
    · rfl
    · exact absurd ⟨e2, h2, hc2⟩ (h k x hc1)
    · exact absurd ⟨e1, h1, hc1⟩ (h k x hc2)
    · exact hS.disjoint h1 h2 hc1 hc2

lemma owned_insert : Owned (insert w S) k x ↔ w.Covers k x ∨ Owned S k x := by
  simp [Owned, or_and_right, exists_or]

lemma startsAt_insert : StartsAt (insert w S) k x ↔ w.key = k ∧ w.start = x ∨ StartsAt S k x := by
  simp [StartsAt, or_and_right, exists_or]

def Latest (log : List (Extent K V)) (e : Extent K V) : Prop :=
  ∃ older w newer, log = older ++ w :: newer ∧ e.val = w.val ∧
    ∀ k x, e.Covers k x → w.Covers k x ∧ ∀ w' ∈ newer, ¬w'.Covers k x

variable {log : List (Extent K V)}

lemma Latest.within (h : Latest log e) (hw : e'.Within e) : Latest log e' := by
  obtain ⟨older, w, newer, hlog, hval, hcov⟩ := h
  exact ⟨older, w, newer, hlog, hw.val_eq.trans hval, fun k x hc => hcov k x (hw.covers hc)⟩

lemma Latest.append (h : Latest log e)
    (hw : ∀ k x, e.Covers k x → ¬w.Covers k x) : Latest (log ++ [w]) e := by
  obtain ⟨older, w0, newer, rfl, hval, hcov⟩ := h
  refine ⟨older, w0, newer ++ [w], by simp, hval, fun k x hc => ?_⟩
  refine ⟨(hcov k x hc).1, fun w' hw' => ?_⟩
  rcases List.mem_append.1 hw' with hw' | hw'
  · exact (hcov k x hc).2 w' hw'
  · rw [List.mem_singleton.1 hw']
    exact hw k x hc

structure Represents (log : List (Extent K V)) (S : Set (Extent K V)) : Prop where
  valid : Valid S
  owned : ∀ k x, Owned S k x ↔ ∃ w ∈ log, w.Covers k x
  latest : ∀ e ∈ S, Latest log e

lemma represents_empty : Represents ([] : List (Extent K V)) ∅ :=
  ⟨⟨nofun, nofun⟩, by simp [Owned], by simp⟩

/-- **Overwriting**: once the older extents are cut back to the points outside `w`, adding `w` gives
    what the longer log leaves. -/
lemma Represents.overwrite (hS : Represents log S) (hT : Valid T)
    (hbl : Below T S) (h : ∀ k x, Owned T k x ↔ Owned S k x ∧ ¬w.Covers k x)
    (hw : 0 < w.len) : Represents (log ++ [w]) (insert w T) := by
  refine ⟨hT.insert hw fun k x hc ho => ((h k x).1 ho).2 hc, fun k x => ?_, ?_⟩
  · rw [owned_insert, h, hS.owned]
    simp only [List.mem_append, List.mem_singleton, or_and_right, exists_or, exists_eq_left]
    by_cases hc : w.Covers k x <;> simp [hc]
  · rintro e (rfl | he)
    · exact ⟨log, e, [], rfl, rfl, fun k x hc => ⟨hc, by simp⟩⟩
    · obtain ⟨e0, he0, hwth⟩ := hbl e he
      refine ((hS.latest e0 he0).within hwth).append fun k x hc => ?_
      exact ((h k x).1 ⟨e, he, hc⟩).2

def Fits (S : Set (Extent K V)) (w : Extent K V) : Prop :=
  ∀ e ∈ S, e.key = w.key → e.start = w.start ∧ e.len = w.len ∨ e.stop ≤ w.start ∨ w.stop ≤ e.start

def notAt (S : Set (Extent K V)) (w : Extent K V) : Set (Extent K V) :=
  {e | e ∈ S ∧ ¬(e.key = w.key ∧ e.start = w.start)}

lemma Fits.len_eq (h : Fits S w) (hS : Valid S) (hw : 0 < w.len) (he : e ∈ S)
    (hkey : e.key = w.key) (hst : e.start = w.start) : e.len = w.len := by
  have hpos := hS.pos he
  rcases h e he hkey with ⟨-, hlen⟩ | hpre | hbhn
  · exact hlen
  · unfold Extent.stop at hpre
    omega
  · unfold Extent.stop at hbhn
    omega

lemma notAt_eq_self (h : ∀ e ∈ S, ¬(e.key = w.key ∧ e.start = w.start)) : notAt S w = S := by
  ext e
  exact ⟨fun he => he.1, fun he => ⟨he, h e he⟩⟩

lemma Valid.eq_of_start (hS : Valid S) (he : e ∈ S) (he' : e' ∈ S) (hkey : e'.key = e.key)
    (h : e'.start = e.start) : e' = e := by
  refine hS.disjoint he' he (Extent.covers_start (hS.pos he')) ⟨hkey.symm, h.ge, ?_⟩
  have hpos := hS.pos he
  unfold Extent.stop
  omega

lemma Valid.notAt_eq (hS : Valid S) (he : e ∈ S) (hkey : e.key = w.key) (h : e.start = w.start) :
    notAt S w = S \ {e} := by
  ext e'
  constructor
  · rintro ⟨he', hnot⟩
    refine ⟨he', fun heq => hnot ?_⟩
    rw [Set.mem_singleton_iff.1 heq]
    exact ⟨hkey, h⟩
  · rintro ⟨he', hne⟩
    exact ⟨he', fun hat => hne (hS.eq_of_start he he' (hat.1.trans hkey.symm) (hat.2.trans h.symm))⟩

lemma Fits.owned_notAt (h : Fits S w) (hS : Valid S) (hw : 0 < w.len) :
    Owned (notAt S w) k x ↔ Owned S k x ∧ ¬w.Covers k x := by
  constructor
  · rintro ⟨e, ⟨he, hnot⟩, hc⟩
    refine ⟨⟨e, he, hc⟩, fun hwc => ?_⟩
    obtain ⟨rfl, hle, hlt⟩ := hc
    obtain ⟨hkey, hwle, hwlt⟩ := hwc
    rcases h e he hkey.symm with ⟨hst, -⟩ | hpre | hbhn
    · exact hnot ⟨hkey.symm, hst⟩
    all_goals omega
  · rintro ⟨⟨e, he, hc⟩, hnot⟩
    refine ⟨e, ⟨he, ?_⟩, hc⟩
    rintro ⟨hkey, hst⟩
    have hlen := h.len_eq hS hw he hkey hst
    refine hnot ⟨hkey.symm.trans hc.1, hst ▸ hc.2.1, ?_⟩
    have hlt := hc.2.2
    unfold Extent.stop at hlt ⊢
    omega

lemma Represents.replace (hS : Represents log S) (h : Fits S w)
    (hw : 0 < w.len) : Represents (log ++ [w]) (insert w (notAt S w)) := by
  have hsub : notAt S w ⊆ S := fun e he => he.1
  exact hS.overwrite (hS.valid.mono hsub) (fun e he => ⟨e, hsub he, .refl e⟩)
    (fun k x => h.owned_notAt hS.valid hw) hw

end Extents
