import FioSsd.History.LastWriter

/-! # Verifying while writing

With `verify_backlog` the job fetches entries between its writes. -/

namespace FioSsd

namespace History

open Extents

variable {hash : KeyHash} {o : ThreadOptions} {h h' h₀ : History} {p : Nat} {ipo : IoPiece}
  {outcome : OpenOutcome}

/-- `remove_seg`, called with `num_maps`, reaches the end of the entry `ipo`, or `clean_map` empties
    the whole map afterwards. -/
def Reaches (h : History) (outcome : OpenOutcome) (ipo : IoPiece) : Prop :=
  ipo.nrBlk = 1 ∨ ipo.block + ipo.nrBlk ≤ 32 * (h.files ipo.file).numMaps ∨
    Cleans { h with ioHistLen := h.ioHistLen - 1 } ipo.file outcome

section Cells

variable (hw : Wf hash h) (hex : MapExact h) (hp : h.live p = some ipo)

include hw hex hp

lemma cell_inSeg {x : Nat} (hlow : ipo.block < x) (hhg : x < ipo.block + ipo.nrBlk) :
    h.cell ipo.file x = .inSeg := by
  have hmem : ipo.extent ∈ h.extents := ⟨p, ipo, hp, rfl⟩
  have hcov : ipo.extent.Covers ipo.file x := ⟨rfl, hlow.le, hhg⟩
  have hin := (hw.table.piece hp).inMap
  rw [hex _ _ (by omega)]
  refine expected_of_owned ?_ ⟨_, hmem, hcov⟩
  rintro ⟨e, he, hkey, rfl⟩
  have hce : e.Covers ipo.file e.start := hkey ▸ Extent.covers_start (hw.valid.pos he)
  have hst := congrArg Extent.start (hw.valid.disjoint he hmem hce hcov)
  have : e.start = ipo.block := hst
  omega

lemma cell_stop_ne_inSeg (hin : ipo.block + ipo.nrBlk < 32 * h.words ipo.file) :
    h.cell ipo.file (ipo.block + ipo.nrBlk) ≠ .inSeg := by
  have hmem : ipo.extent ∈ h.extents := ⟨p, ipo, hp, rfl⟩
  have hpos := (hw.table.piece hp).pos
  rw [hex _ _ hin]
  by_cases hst : StartsAt h.extents ipo.file (ipo.block + ipo.nrBlk)
  · rw [expected_of_startsAt hst]
    decide
  · rw [expected_of_not_owned hw.valid]
    · decide
    · rintro ⟨e, he, hkey, hlow, hhg⟩
      have hne : e.start ≠ ipo.block + ipo.nrBlk := fun heq => hst ⟨e, he, hkey, heq⟩
      -- `e` would share the block before with this segment
      have heq := hw.valid.disjoint he hmem (k := ipo.file) (x := ipo.block + ipo.nrBlk - 1)
        ⟨hkey, by omega, by omega⟩
        ⟨rfl, by simp only [IoPiece.extent]; omega, by simp only [IoPiece.extent, Extent.stop]; omega⟩
      rw [heq] at hhg
      simp only [IoPiece.extent, Extent.stop] at hhg
      omega

end Cells

/-- **When a fetch leaves the map exact**: exactly when `remove_seg` reaches the end of the entry, or
    `clean_map` empties the map behind it. -/
lemma Fetched.mapExact_iff (hw : Wf hash h) (hex : MapExact h) (hok : FilesOk h.files)
    (hp : h.live p = some ipo) (hf : Fetched hash h h' p ipo outcome) :
    MapExact h' ↔ Reaches h outcome ipo := by
  obtain ⟨e, he, hseg, hend, hcel⟩ := hf.cells
  have hmem : ipo.extent ∈ h.extents := ⟨p, ipo, hp, rfl⟩
  have hpos := (hw.table.piece hp).pos
  have hin := (hw.table.piece hp).inMap
  have hnum : h.words ipo.file = 2 * (h.files ipo.file).numMaps := hok.words _
  have hwr := hf.layout.words_eq
  have hlt : ipo.extent.start < ipo.extent.stop := by
    simp only [IoPiece.extent, Extent.stop]
    omega
  have hown : ∀ g x, Owned h'.extents g x ↔ Owned h.extents g x ∧ ¬ipo.extent.Covers g x := by
    intro g x
    rw [hf.extents, diff_eq_cut, owned_cut hw.valid hmem hlt hlt]
    exact and_congr_right fun _ => not_congr ⟨And.left, fun hc => ⟨hc, hc.2⟩⟩
  have hstr : ∀ g x, ¬ipo.extent.Covers g x →
      (StartsAt h'.extents g x ↔ StartsAt h.extents g x) := by
    intro g x hc
    rw [hf.extents, diff_eq_cut, startsAt_cut hw.valid hmem hlt hlt, or_iff_left (by omega),
      and_iff_left]
    rintro ⟨rfl, rfl, -⟩
    exact hc (hw.table.covers_start hp)
  -- the walk of `remove_seg` stays inside the entry
  have hle : e ≤ ipo.block + ipo.nrBlk := by
    by_contra hgt
    have hst := hseg (ipo.block + ipo.nrBlk) (by omega) (by omega)
    exact cell_stop_ne_inSeg hw hex hp (by omega) hst.1
  constructor
  · intro hex'
    by_contra hnot
    simp only [Reaches, not_or] at hnot
    obtain ⟨hone, hbyn, hcl⟩ := hnot
    -- the first cell it leaves still shows the entry
    have hsh : e < ipo.block + ipo.nrBlk := by
      rcases Nat.lt_or_ge (ipo.block + 1) e with hgt | hge
      · have := (hseg (e - 1) (by omega) (by omega)).2
        omega
      · omega
    have hcell := hex' ipo.file e (by rw [hwr]; omega)
    rw [hcel, if_neg fun hc => hcl hc.1, if_neg (by omega), cell_inSeg hw hex hp he hsh,
      expected_of_not_owned hf.wf.valid] at hcell
    · cases hcell
    · rw [hown]
      exact fun ho => ho.2 ⟨rfl, he.le, hsh⟩
  · intro hrc f x hx
    rw [hwr] at hx
    by_cases hf' : f = ipo.file
    · subst hf'
      by_cases hcl : Cleans { h with ioHistLen := h.ioHistLen - 1 } ipo.file outcome
      · rw [hcel, if_pos ⟨hcl, rfl, hx⟩, expected_of_not_owned hf.wf.valid]
        rw [hf.extents_of_cleans hw hp hcl]
        simp [Owned]
      · have hst : e = ipo.block + ipo.nrBlk := by
          by_contra hne
          have hbyn := hend (cell_inSeg hw hex hp he (by omega))
          rcases hrc with hone | hle' | hc
          · omega
          · omega
          · exact hcl hc
        rw [hcel, if_neg fun hc => hcl hc.1]
        by_cases hc : ipo.extent.Covers ipo.file x
        · rw [if_pos ⟨rfl, hc.2.1, lt_of_lt_of_eq hc.2.2 hst.symm⟩, expected_of_not_owned hf.wf.valid]
          rw [hown]
          exact fun ho => ho.2 hc
        · rw [if_neg fun hx' => hc ⟨rfl, hx'.2.1, lt_of_lt_of_eq hx'.2.2 hst⟩, hex _ _ hx]
          exact expected_congr (hstr _ _ hc).symm (by rw [hown, and_iff_left hc])
    · have hc : ¬ipo.extent.Covers f x := fun hc => hf' hc.1.symm
      rw [hcel, if_neg fun hx' => hf' hx'.2.1, if_neg fun hx' => hf' hx'.1, hex _ _ hx]
      exact expected_congr (hstr _ _ hc).symm (by rw [hown, and_iff_left hc])

inductive Op
  | log (ioU : IoU) (r : Nat)
  | fetch (ioU : IoU) (outcome : OpenOutcome)

def step (hash : KeyHash) (o : ThreadOptions) (h : History) : Op → Except Fault History
  | .log ioU r => h.logIoPiece hash o ioU r
  | .fetch ioU outcome => (h.getNextVerify o ioU outcome).map fun r => r.2.2

def Op.Ok (o : ThreadOptions) (h : History) : Op → Prop
  | .log ioU _ => SegWrite o h.files ioU
  | .fetch ioU _ => ioU.file = none

def Op.Empties (h : History) : Op → Prop
  | .log _ _ => True
  | .fetch _ outcome => ∀ p ∈ h.ioHistList.head?, ∀ ipo ∈ h.heap p, Reaches h outcome ipo

inductive Backlog (hash : KeyHash) (o : ThreadOptions) (h₀ : History) : History → Prop
  | init : Backlog hash o h₀ h₀
  | step {h h' : History} {op : Op} : Backlog hash o h₀ h → op.Ok o h → op.Empties h →
      h.step hash o op = .ok h' → Backlog hash o h₀ h'

lemma step_spec (hw : Wf hash h) (hex : MapExact h) (hfl : FilesOk h.files) {op : Op}
    (hop : op.Ok o h) : ∃ h', h.step hash o op = .ok h' ∧ Wf hash h' ∧ FilesOk h'.files ∧
      (MapExact h' ↔ op.Empties h) := by
  cases op with
  | log ioU r =>
    obtain ⟨h', T, hlog, hw', hex', hfl', -⟩ := hw.logIoPiece_spec hex hop r
    exact ⟨h', hlog, hw', hfl.of_sameButCells hfl', iff_of_true hex' trivial⟩
  | fetch ioU outcome =>
    cases hls : h.ioHistList with
    | nil =>
      have hfil : ioU.file = none := hop
      refine ⟨h, ?_, hw, hfl, iff_of_true hex ?_⟩
      · simp [step, getNextVerify, hfil, takeNext, hw.tree, hls, bind, Except.bind, pure,
          Except.pure, Except.map]
      · simp [Op.Empties, hls]
    | cons p rest =>
      obtain ⟨ipo, hp⟩ := hw.live_of_mem (p := p) (by simp [hls])
      obtain ⟨failed, ioU', h', hnx, -, -, hf⟩ :=
        hw.getNextVerify_spec (o := o) (hex.marked hw) hfl hls hp hop outcome
      refine ⟨h', by simp only [step, hnx, Except.map], hf.wf, hf.files, ?_⟩
      rw [hf.mapExact_iff hw hex hfl hp]
      simp [Op.Empties, hls, heap_of_live hp]

lemma Backlog.spec (hin : Pristine h₀) (hr : Backlog hash o h₀ h) :
    Wf hash h ∧ FilesOk h.files ∧ MapExact h := by
  induction hr with
  | init => exact ⟨hin.wf, hin.files, hin.mapExact⟩
  | step _ hop hemp hst ih =>
    obtain ⟨hw, hfl, hex⟩ := ih
    obtain ⟨h1, hst1, hw1, hfl1, hiff⟩ := step_spec hw hex hfl hop
    rw [hst] at hst1
    cases hst1
    exact ⟨hw1, hfl1, hiff.2 hemp⟩

/-- **The map along a run with a verify backlog** is exact while every fetch empties its entry to
    the end; and an operation keeps it exact if and only if it does the same. -/
theorem backlog_mapExact (hinit : Pristine h₀) (hrun : Backlog hash o h₀ h) :
    MapExact h ∧ (∀ p ipo, h.live p = some ipo → ipo.hashed = true) ∧
      ∀ op : Op, op.Ok o h → ∃ h', h.step hash o op = .ok h' ∧ (MapExact h' ↔ op.Empties h) := by
  obtain ⟨hw, hfl, hex⟩ := hrun.spec hinit
  refine ⟨hex, fun p ipo hp => (hw.table.piece hp).hashed, fun op hop => ?_⟩
  obtain ⟨h', hst, -, -, hiff⟩ := step_spec hw hex hfl hop
  exact ⟨h', hst, hiff⟩

theorem backlog_mapExact_lower_half :
    ∃ h, Backlog (fun _ => 0) segOptions blankJob h ∧ MapExact h ∧
      ∃ h', h.step (fun _ => 0) segOptions (.fetch default .succeeds) = .ok h' ∧ MapExact h' := by
  obtain ⟨h, hlog, hrc⟩ :
      ∃ h, blankJob.step (fun _ => 0) segOptions (.log (blockWrite 3 2 1) 0) = .ok h ∧
        ∀ p ∈ h.ioHistList, ∀ ipo ∈ h.heap p, ipo.block + ipo.nrBlk ≤ 32 * (h.files ipo.file).numMaps := by
    decide +kernel
  have hop : (Op.log (blockWrite 3 2 1) 0).Ok segOptions blankJob := ⟨rfl, rfl, by decide, by decide⟩
  have hr : Backlog (fun _ => 0) segOptions blankJob h := .step .init hop trivial hlog
  obtain ⟨hex, -, hst⟩ := backlog_mapExact blankJob_pristine hr
  obtain ⟨h', hft, hiff⟩ := hst (.fetch default .succeeds) rfl
  refine ⟨h, hr, hex, h', hft, hiff.2 fun p hp ipo hipo => .inr (.inl ?_)⟩
  exact hrc p (List.mem_of_mem_head? hp) ipo hipo

def openJob : History :=
  { blankJob with files := fun f => { blankJob.files f with isOpen := true, fdOpen := true } }

/-- A write of blocks 32 and 33 leaves cell 33 marked when it is fetched, and the next write to that
    block runs off the front of the map. -/
theorem fetch_upper_half_leaves_inSeg :
    ∃ h₁ h₂, openJob.step (fun _ => 0) segOptions (.log (blockWrite 32 2 1) 0) = .ok h₁ ∧
      h₁.step (fun _ => 0) segOptions (.fetch default .succeeds) = .ok h₂ ∧
      h₂.ioHistList = [] ∧ h₂.cell 0 33 = .inSeg ∧ ¬MapExact h₂ ∧
      h₂.step (fun _ => 0) segOptions (.log (blockWrite 33 1 2) 0) = .error .mapOverrun := by
  obtain ⟨h₁, hlog, h₂, hft, hls, hwr, hcl, hnx⟩ :
      ∃ h₁, openJob.step (fun _ => 0) segOptions (.log (blockWrite 32 2 1) 0) = .ok h₁ ∧
      ∃ h₂, h₁.step (fun _ => 0) segOptions (.fetch default .succeeds) = .ok h₂ ∧
        h₂.ioHistList = [] ∧ h₂.words 0 = 2 ∧ h₂.cell 0 33 = .inSeg ∧
        h₂.step (fun _ => 0) segOptions (.log (blockWrite 33 1 2) 0) = .error .mapOverrun := by
    decide +kernel
  refine ⟨h₁, h₂, hlog, hft, hls, hcl, fun hex => ?_, hnx⟩
  have hexp := hex 0 33 (by omega)
  have hemp := extents_eq_empty hls
  rw [hcl, hemp, expected_of_not_owned represents_empty.valid (by simp [Owned])] at hexp
  cases hexp

end History

end FioSsd
