import FioSsd.History.Steps

/-! # The last writer wins

A job that logs any sequence of overlapping writes and then fetches until the history is empty reads
every written block once, as part of a range that carries the version of the write that covered it
last. -/

namespace FioSsd

variable {ipo : IoPiece} {p : Nat} {outcome : OpenOutcome}

namespace History

open Extents List

variable {hash : KeyHash} {o : ThreadOptions} {h h' : History}

structure Pristine (h : History) : Prop where
  list : h.ioHistList = []
  tree : h.ioHistTree = []
  len : h.ioHistLen = 0
  buckets : ∀ b, h.iohistHash b = []
  fresh : ∀ {p ipo}, h.heap p = some ipo → p < h.nextAddr
  files : FilesOk h.files
  cells : ∀ f x, x < 32 * h.words f → h.cell f x = .empty

lemma live_eq_none (hls : h.ioHistList = []) (p : Nat) : h.live p = none := by
  simp [live, hls]

lemma extents_eq_empty (hls : h.ioHistList = []) : h.extents = ∅ := by
  ext e
  simp [extents, extentsOf, live_eq_none hls]

lemma Pristine.wf (hin : Pristine h) : Wf hash h where
  nodup := by simp [hin.list]
  allocated := by simp [hin.list]
  fresh := hin.fresh
  len := by simp [hin.list, hin.len]
  tree := hin.tree
  table := by
    constructor <;> simp [live_eq_none hin.list, hin.buckets]

lemma Pristine.mapExact (hin : Pristine h) : MapExact h := by
  intro f x hx
  have hemp := extents_eq_empty hin.list
  rw [hin.cells f x hx, expected_of_not_owned] <;> rw [hemp]
  · exact represents_empty.valid
  · simp [Owned]

/-- `log_io_piece` for each write, with the draw of `io_u_should_trim`. -/
def logAll (hash : KeyHash) (o : ThreadOptions) :
    List (IoU × Nat) → History → Except Fault History
  | [], h => .ok h
  | (ioU, r) :: rest, h => do
    let h ← h.logIoPiece hash o ioU r
    logAll hash o rest h

lemma logAll_spec (hash : KeyHash) (o : ThreadOptions) : ∀ (writes : List (IoU × Nat))
    (log : List (Extent FileId FioUnique))
    (h : History), Wf hash h → MapExact h → Represents log h.extents →
    (∀ w ∈ writes, SegWrite o h.files w.1) →
    ∃ h', logAll hash o writes h = .ok h' ∧ Wf hash h' ∧ MapExact h' ∧
      SameButCells h.files h'.files ∧
      Represents (log ++ writes.map fun w => writeExtent o h.files w.1) h'.extents := by
  intro writes
  induction writes with
  | nil =>
    intro log h hw hexa hrep _
    exact ⟨h, rfl, hw, hexa, .refl _, by simpa using hrep⟩
  | cons w rest ih =>
    intro log h hw hexa hrep hwrt
    have hwr := hwrt w (by simp)
    obtain ⟨h1, T, hlog, hw1, hex1, hfl1, hext, hvl, hbl, hown⟩ := hw.logIoPiece_spec hexa hwr w.2
    have hrp1 := hrep.overwrite hvl hbl hown hwr.pos
    rw [← hext] at hrp1
    have hlyt := hfl1.sameLayout
    obtain ⟨h', hall, hw', hex', hfl', hrp'⟩ := ih _ h1 hw1 hex1 hrp1 fun w' hw' =>
      (hwrt w' (by simp [hw'])).of_sameLayout hlyt
    refine ⟨h', ?_, hw', hex', hfl1.trans hfl', ?_⟩
    · simp [logAll, hlog, bind, Except.bind, hall]
    · simpa only [hlyt.writeExtent_eq, append_assoc, map_cons, singleton_append] using hrp'

/-- Call `get_next_verify` until it reports an empty history, each time with a fresh I/O unit. -/
def drain (o : ThreadOptions) (fresh : Nat → IoU) :
    Nat → History → Except Fault (List IoU × History)
  | 0, _ => .error .outOfFuel
  | fuel + 1, h => do
    let (empty, ioU, h) ← h.getNextVerify o (fresh fuel) .succeeds
    if empty then return ([], h)
    else
      let (ranges, h) ← drain o fresh fuel h
      return (ioU :: ranges, h)

def pending (h : History) : List (Extent FileId FioUnique) :=
  h.ioHistList.filterMap fun p => (h.live p).map IoPiece.extent

lemma mem_pending {e : Extent FileId FioUnique} : e ∈ h.pending ↔ e ∈ h.extents := by
  simp only [pending, mem_filterMap, Option.map_eq_some_iff]
  constructor
  · rintro ⟨p, -, ipo, hp, rfl⟩
    exact ⟨p, ipo, hp, rfl⟩
  · rintro ⟨p, ipo, hp, rfl⟩
    exact ⟨p, mem_of_live hp, ipo, hp, rfl⟩

lemma Wf.pairwise_pending (hw : Wf hash h) :
    h.pending.Pairwise fun e e' => ∀ f x, e.Covers f x → ¬e'.Covers f x := by
  refine List.Pairwise.filterMap _ ?_ hw.nodup
  rintro p q hne e he e' he' f x hc hc'
  obtain ⟨ipo, hp, rfl⟩ := Option.map_eq_some_iff.1 he
  obtain ⟨ipo', hq, rfl⟩ := Option.map_eq_some_iff.1 he'
  exact hne (hw.table.disjoint hp hq hc hc')

lemma Fetched.extents_of_cleans
    (hw : Wf hash h) (hp : h.live p = some ipo) (hf : Fetched hash h h' p ipo outcome)
    (hcl : Cleans { h with ioHistLen := h.ioHistLen - 1 } ipo.file outcome) :
    h'.extents = ∅ := by
  have hlen : h.ioHistLen - 1 = 0 := hcl.2.2
  have hlng := length_erase_of_mem (mem_of_live hp)
  rw [hw.len] at hlen
  refine extents_eq_empty (length_eq_zero_iff.1 ?_)
  rw [hf.list, hlng]
  omega

lemma Fetched.marked (hw : Wf hash h)
    (hmrk : Marked h) (hp : h.live p = some ipo) (hf : Fetched hash h h' p ipo outcome) :
    Marked h' := by
  intro f x hx
  obtain ⟨e, he, hseg, -, hcl⟩ := hf.cells
  have hntc : ¬Cleans { h with ioHistLen := h.ioHistLen - 1 } ipo.file outcome := by
    intro hcle
    rw [hf.extents_of_cleans hw hp hcle] at hx
    obtain ⟨e', he', -⟩ := hx
    cases he'
  rw [hf.extents] at hx
  obtain ⟨e', ⟨hmem, hne⟩, rfl, rfl⟩ := hx
  have hst := hmrk ⟨e', hmem, rfl, rfl⟩
  have hcov := Extent.covers_start (hw.valid.pos hmem)
  have hme0 : ipo.extent ∈ h.extents := ⟨p, ipo, hp, rfl⟩
  rw [hcl, if_neg fun hc => hntc hc.1, if_neg, hst]
  -- the emptied cells are the entry's own start and `IN` cells
  rintro ⟨hkey, hlow, hhg⟩
  rcases Nat.eq_or_lt_of_le hlow with heq | hlt
  · refine hne (hw.valid.disjoint hmem hme0 hcov ?_)
    rw [hkey, ← heq]
    exact hw.table.covers_start hp
  · have := (hseg _ hlt hhg).1
    rw [← hkey, hst] at this
    cases this

lemma drain_spec (fresh : Nat → IoU) (hfr : ∀ i, (fresh i).file = none) :
    ∀ (l : List Nat) (h : History), h.ioHistList = l → Wf hash h → Marked h → FilesOk h.files →
      ∃ ranges h', drain o fresh (l.length + 1) h = .ok (ranges, h') ∧
        List.Forall₂ (Returned o h.files) h.pending ranges ∧ h'.ioHistList = [] ∧
        h'.ioHistLen = 0 := by
  intro l
  induction l with
  | nil =>
    intro h hls hw _ _
    refine ⟨[], h, ?_, ?_, hls, ?_⟩
    · simp [length_nil, drain, getNextVerify, hfr, takeNext, hw.tree, hls, bind, Except.bind, pure,
        Except.pure]
    · simp [pending, hls]
    · rw [hw.len, hls]
      rfl
  | cons p rest ih =>
    intro h hls hw hmrk hok
    obtain ⟨ipo, hp⟩ := hw.live_of_mem (p := p) (by simp [hls])
    obtain ⟨failed, ioU, h1, hnx, hsc, hret, hf⟩ :=
      hw.getNextVerify_spec (o := o) hmrk hok hls hp (hfr (rest.length + 1)) .succeeds
    have hls1 : h1.ioHistList = rest := by rw [hf.list, hls, erase_cons_head]
    obtain ⟨ranges, h', hdrain, hrng, hls', hln'⟩ :=
      ih h1 hls1 hf.wf (hf.marked hw hmrk hp) hf.files
    have hpnd : h.pending = ipo.extent :: h1.pending := by
      have hnot : p ∉ rest := by
        have := hw.nodup
        rw [hls, nodup_cons] at this
        exact this.1
      rw [pending, pending, hls, hls1, filterMap_cons, hp, hf.live]
      refine congrArg (ipo.extent :: ·) (filterMap_congr fun q hq => ?_)
      have hqp : q ≠ p := fun heq => hnot (heq ▸ hq)
      rw [Function.update_of_ne hqp]
    refine ⟨ioU :: ranges, h', ?_, ?_, hls', hln'⟩
    · rw [length_cons, drain]
      simp only [hnx, hsc rfl, bind, Except.bind, Bool.false_eq_true, if_false, hdrain]
      rfl
    · rw [hpnd]
      refine .cons hret (hrng.imp fun e u hu => ⟨hu.file, ?_, hu.buflen, hu.version⟩)
      rw [hu.offset, hf.layout.fileOffset]

/-- **The last writer wins.** Logging any writes to an empty history and then fetching until nothing
    is left faults nowhere; the ranges are disjoint, cover exactly the blocks written, and each
    carries the version of the last write to all its blocks. -/
theorem logAll_drain_lastWriter (hash : KeyHash) (hinit : Pristine h) (writes : List (IoU × Nat))
    (hwrites : ∀ w ∈ writes, SegWrite o h.files w.1) (fresh : Nat → IoU)
    (hfresh : ∀ i, (fresh i).file = none) :
    ∃ h₁ segs ranges h₂, logAll hash o writes h = .ok h₁ ∧
      drain o fresh (h₁.ioHistList.length + 1) h₁ = .ok (ranges, h₂) ∧
      List.Forall₂ (Returned o h.files) segs ranges ∧
      segs.Pairwise (fun e e' => ∀ f x, e.Covers f x → ¬e'.Covers f x) ∧
      (∀ f x, (∃ e ∈ segs, e.Covers f x) ↔ ∃ w ∈ writes, (writeExtent o h.files w.1).Covers f x) ∧
      (∀ e ∈ segs, Latest (writes.map fun w => writeExtent o h.files w.1) e) ∧
      h₂.ioHistList = [] ∧ h₂.ioHistLen = 0 := by
  have hrep : Represents [] h.extents := by
    rw [extents_eq_empty hinit.list]
    exact represents_empty
  obtain ⟨h₁, hlog, hw1, hex1, hfl1, hrp1⟩ :=
    logAll_spec hash o writes [] h hinit.wf hinit.mapExact hrep hwrites
  obtain ⟨ranges, h₂, hdrain, hrng, hls2, hln2⟩ := drain_spec (o := o) fresh hfresh _ h₁ rfl hw1
    (hex1.marked hw1) (hinit.files.of_sameButCells hfl1)
  refine ⟨h₁, h₁.pending, ranges, h₂, hlog, hdrain, ?_, hw1.pairwise_pending, fun f x => ?_,
    fun e he => hrp1.latest e (mem_pending.1 he), hls2, hln2⟩
  · refine hrng.imp fun e u hu => ⟨hu.file, ?_, hu.buflen, hu.version⟩
    rw [hu.offset, hfl1.sameLayout.fileOffset]
  · have hown := hrp1.owned f x
    simp only [Owned, nil_append, mem_map, exists_exists_and_eq_and] at hown
    simpa only [mem_pending] using hown

def segOptions : ThreadOptions :=
  { defaultOptions with ddirWrite := true, ddirSeqNr := 2, verifyInner := true }

def blankJob : History :=
  {
    files := fun _ =>
      { fileMap2 := ⟨2, two_words_lt, fun _ => .empty⟩, numMaps := 1 } }

def blockWrite (block nr v : Nat) : IoU :=
  {
    file := some 0, offset := BitVec.ofNat 64 (block * 4096), buflen := BitVec.ofNat 64 (nr * 4096)
    uniqueVersion := ⟨BitVec.ofNat 64 v, 0⟩ }

lemma blankJob_pristine : Pristine blankJob where
  list := rfl
  tree := rfl
  len := rfl
  buckets _ := rfl
  fresh hp := absurd hp (by simp [blankJob])
  files := ⟨fun _ => rfl, fun _ h => absurd h (by simp [blankJob])⟩
  cells _ _ _ := rfl

theorem logAll_drain_split :
    ∃ h₁ ranges h₂, logAll (fun _ => 0) segOptions [(blockWrite 0 3 1, 0), (blockWrite 1 1 2, 0)]
        blankJob = .ok h₁ ∧
      drain segOptions (fun _ => default) (h₁.ioHistList.length + 1) h₁ = .ok (ranges, h₂) ∧
      h₂.ioHistLen = 0 := by
  have hwrt : ∀ w ∈ [(blockWrite 0 3 1, 0), (blockWrite 1 1 2, 0)],
      SegWrite segOptions blankJob.files w.1 := by
    intro w hw
    simp only [mem_cons, not_mem_nil, or_false] at hw
    rcases hw with rfl | rfl <;> exact ⟨rfl, rfl, by decide, by decide⟩
  obtain ⟨h₁, _, ranges, h₂, hlog, hdrain, -, -, -, -, -, hlen⟩ :=
    logAll_drain_lastWriter (fun _ => 0) blankJob_pristine _ hwrt (fun _ => default) fun _ => rfl
  exact ⟨h₁, ranges, h₂, hlog, hdrain, hlen⟩

end History

end FioSsd
