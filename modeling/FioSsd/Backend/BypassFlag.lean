import FioSsd.Backend.Versions
import FioSsd.Generator.Taken

/-! # The bypass of the random map

`get_next_block` sets `IO_U_F_BUSY_OK` on a unit whose offset is not to be random, and the functions
that mark the map pass such a unit by. -/

namespace FioSsd

section

variable (scale : Scale) (randMax : Nat) (o : ThreadOptions)

/-- `get_next_block` takes the offset from `get_next_rand_block`: at once, or because there is no sequential
    offset left. -/
def drawnOffset (s : Fill) : Bool :=
  if (countSeq o s.ddirSeqNr).1 then o.ddirRand
  else o.rwSeq = .rwSeqSeq && (getNextSeqOffset o s.file).1.isNone

structure FillCall where
  s : Fill
  draws : FillDraws
  ioHistLen : Int

variable (c : FillCall)

/-- The unit that `mark_random_map` or `mark_bit_map` sees in the call, in a random job. -/
def FillCall.Marks (ioU : IoU) : Prop :=
  ddirRw c.draws.ddir = true ∧ ∃ s,
    pickRequest scale randMax o c.ioHistLen (c.s.directed o c.draws) c.draws = .ok (false, s) ∧
      (o.randomagain = true ∨ History.fileRandommap o s.file = true) ∧ s.ioU = ioU

def FillCall.Fresh : Prop :=
  ∀ ioU, c.Marks scale randMax o ioU → ioU.busyOk = true →
    drawnOffset o (c.s.directed o c.draws) = false

/-- A further request finds room, with `rw_sequencer=sequential` behind the one before it. -/
def FillCall.Served : Prop :=
  ddirRw c.draws.ddir = true → (countSeq o c.s.ddirSeqNr).1 = false →
    okAnd (fillIoU scale randMax o false c.ioHistLen c.s c.draws) (!·.1) ∧
      (o.rwSeq = .rwSeqSeq → (getNextSeqOffset o (c.s.directed o c.draws).file).1.isSome)
deriving Decidable

/-- The calls of `fill_io_u` that `set_io_u_file` makes for the unit, each with the state it starts
    from: on the next file, while the one before has no room. -/
def Td.fillCalls (td : Td) (u : Nat) : List FilePick → List FillCall
  | [] => []
  | pick :: rest =>
    match td.getNextFile o pick.tries with
    | .ok (some f, td) =>
      match td.hist.getFile f with
      | .ok hist =>
        let td := { td with hist := hist }.setIoU u { td.ioUs u with file := some f }
        let s := ⟨td.ioUs u, td.hist.files f, td.issue.ddirSeqNr, td.issue.zoneBytes⟩
        ⟨s, pick.draws, td.hist.ioHistLen⟩ ::
          match fillIoU scale randMax o false td.hist.ioHistLen s pick.draws with
          | .ok (true, s) =>
            match (td.afterFill u f s).fileDone u f pick with
            | .ok td => td.fillCalls u rest
            | .error _ => []
          | _ => []
      | .error _ => []
    | _ => []

/-- **What happens to a unit**: its further requests are served, and it goes back to the free list
    without the flag. Everything else leaves the flag alone and takes no file from a unit. -/
inductive FlagStep (u : Nat) : Td → Td → Prop
  -- `get_io_u` for a unit without a request
  | fill {td td' : Td} {failed : Bool} {picks : List FilePick} : (td.ioUs u).file = none →
      (∀ c ∈ td.fillCalls scale randMax o u picks, c.Served scale randMax o) →
      td.setIoUFile o scale randMax false u picks = .ok (failed, td') → FlagStep u td td'
  -- the start of `io_completed`
  | completed {td : Td} : FlagStep u td (td.land u)
  -- behind a completion, a failure of `get_io_u`, or from `clear_io_u`
  | put {td td' : Td} {close : Int} : (td.ioUs u).busyOk = false → td.putIoU u close = .ok td' →
      FlagStep u td td'
  | other {td td' : Td} : (td'.ioUs u).busyOk = (td.ioUs u).busyOk →
      ((td'.ioUs u).file = none → (td.ioUs u).file = none) → FlagStep u td td'

end

variable {scale : Scale} {randMax : Nat} {o : ThreadOptions} {ioHistLen : Int} {s s' : Fill}
  {c : FillCall} {ioU : IoU} {failed : Bool} {td td' : Td} {u : Nat} {picks : List FilePick}

lemma getNextOffset_unit {r : RandDraws}
    (h : getNextOffset scale o ioHistLen s r = .ok (failed, s')) :
    s'.ioU.file = s.ioU.file ∧
      s'.ioU.busyOk = (s.ioU.busyOk || !(countSeq o s.ddirSeqNr).1) := by
  obtain ⟨⟨failed1, s1⟩, hblk, h⟩ := of_bind h
  obtain ⟨⟨offset, file⟩, -, hblk⟩ := of_bind hblk
  have hbs : s1.ioU.file = s.ioU.file ∧
      s1.ioU.busyOk = (s.ioU.busyOk || !(countSeq o s.ddirSeqNr).1) := by
    cases offset <;> cases hblk <;> exact ⟨rfl, rfl⟩
  simp only at h
  split_ifs at h <;> cases h <;> exact hbs

lemma directed_unit (s : Fill) (d : FillDraws) :
    (s.directed o d).ioU.file = s.ioU.file ∧ (s.directed o d).ioU.busyOk = s.ioU.busyOk ∧
      (s.directed o d).ddirSeqNr = s.ddirSeqNr := by
  unfold Fill.directed switchZone
  split_ifs <;> exact ⟨rfl, rfl, rfl⟩

lemma FillCall.Marks.busyOk (h : c.Marks scale randMax o ioU) :
    ioU.busyOk = (c.s.ioU.busyOk || !(countSeq o c.s.ddirSeqNr).1) := by
  obtain ⟨-, s, hpc, -, rfl⟩ := h
  obtain ⟨⟨failed, s1⟩, hoff, hpc⟩ := of_bind hpc
  have hbs := (getNextOffset_unit hoff).2
  obtain ⟨-, hfl, hnr⟩ := directed_unit (o := o) c.s c.draws
  rw [hfl, hnr] at hbs
  cases failed with
  | true => cases hpc
  | false =>
    obtain ⟨buflen, -, hpc⟩ := of_bind hpc
    obtain ⟨-, rfl⟩ := ok_pair hpc
    exact hbs

lemma fillIoU_unit {d : FillDraws}
    (h : fillIoU scale randMax o false ioHistLen s d = .ok (failed, s')) :
    s'.ioU.file = s.ioU.file ∧
      s'.ioU.busyOk = (s.ioU.busyOk || ddirRw d.ddir && !(countSeq o s.ddirSeqNr).1) := by
  rw [fillIoU, if_neg Bool.false_ne_true] at h
  by_cases hrw : ddirRw d.ddir
  · simp only [if_pos hrw] at h
    obtain ⟨⟨failed1, s1⟩, hoff, h⟩ := of_bind h
    have hun := getNextOffset_unit hoff
    have hdir := directed_unit (o := o) s d
    unfold Fill.directed FillDraws.directed at hdir
    rw [hdir.1, hdir.2.1, hdir.2.2] at hun
    rw [hrw, Bool.true_and]
    cases failed1 with
    | true =>
      cases h
      exact hun
    | false =>
      obtain ⟨buflen, -, h⟩ := of_bind h
      simp only at h
      split_ifs at h
      · cases h
        exact hun
      · cases h
        exact hun
      · obtain ⟨⟨ioU, file⟩, hmarks, h⟩ := of_bind h
        cases h
        obtain ⟨_, -, _, heq⟩ := markMaps_unit hmarks
        rw [heq]
        exact hun
  · simp only [if_neg hrw] at h
    cases h
    simp [hrw]

lemma FillCall.Served.fresh (h : c.Served scale randMax o) (hflag : c.s.ioU.busyOk = false) :
    c.Fresh scale randMax o := by
  intro ioU hmarks hbusy
  rw [hmarks.busyOk, hflag] at hbusy
  have hfurther : (countSeq o c.s.ddirSeqNr).1 = false := by simpa using hbusy
  have hseq := (h hmarks.1 hfurther).2
  rw [drawnOffset, (directed_unit c.s c.draws).2.2, hfurther]
  simpa [← Option.not_isSome] using hseq

/-- Behind a call that starts without the flag, the unit has a request or still no flag. -/
lemma FillCall.Served.unit (h : c.Served scale randMax o) (hflag : c.s.ioU.busyOk = false)
    (hfill : fillIoU scale randMax o false c.ioHistLen c.s c.draws = .ok (failed, s)) :
    if failed then s.ioU.busyOk = false else s.ioU.file = c.s.ioU.file := by
  obtain ⟨hfile, hbusy⟩ := fillIoU_unit hfill
  cases failed with
  | false => exact hfile
  | true =>
    rw [if_pos rfl, hbusy, hflag, Bool.false_or]
    by_contra hfurther
    simp only [Bool.and_eq_true, Bool.not_eq_true', Bool.not_eq_false] at hfurther
    have hok := (h hfurther.1 hfurther.2).1
    simp [hfill, okAnd] at hok

lemma picked_unit (td : Td) (hist : History) (u : Nat) (f : FileId) :
    ({ td with hist := hist }.setIoU u { td.ioUs u with file := some f }).ioUs u =
      { td.ioUs u with file := some f } :=
  Function.update_self ..

lemma fillCalls_flag (hflag : (td.ioUs u).busyOk = false)
    (h : ∀ c ∈ td.fillCalls scale randMax o u picks, c.Served scale randMax o) :
    ∀ c ∈ td.fillCalls scale randMax o u picks, c.s.ioU.busyOk = false := by
  induction picks generalizing td with
  | nil => simp [Td.fillCalls]
  | cons pick rest ih =>
    unfold Td.fillCalls at h ⊢
    split at h
    · next f td1 hnext =>
        have hflag1 : (td1.ioUs u).busyOk = false :=
          (Td.getNextFile_survives (u := u) hnext).1.busyOk.trans hflag
        split at h
        · next hist hget =>
            obtain ⟨hfirst, hrest⟩ := List.forall_mem_cons.1 h
            have hbusy1 := (congrArg IoU.busyOk (picked_unit td1 hist u f)).trans hflag1
            refine List.forall_mem_cons.2 ⟨hbusy1, ?_⟩
            split at hrest
            · next s hfill =>
                have hbusy := hfirst.unit hbusy1 hfill
                split at hrest
                · next td2 hdone =>
                    refine ih ?_ hrest
                    rw [(Td.fileDone_spec hdone).2.2.2.1, Td.afterFill_unit]
                    exact hbusy
                · simp
            · simp
        · simp
    · simp

/-- Behind `set_io_u_file` the unit has a file, or is still without the flag. -/
lemma setIoUFile_flag (hflag : (td.ioUs u).busyOk = false)
    (h : ∀ c ∈ td.fillCalls scale randMax o u picks, c.Served scale randMax o)
    (hrun : td.setIoUFile o scale randMax false u picks = .ok (failed, td'))
    (hfile : (td'.ioUs u).file = none) : (td'.ioUs u).busyOk = false := by
  induction picks generalizing td with
  | nil => cases hrun
  | cons pick rest ih =>
    obtain ⟨⟨f?, td1⟩, hnext, hrun⟩ := of_bind hrun
    have hflag1 : (td1.ioUs u).busyOk = false :=
      (Td.getNextFile_survives (u := u) hnext).1.busyOk.trans hflag
    cases f? with
    | none =>
      cases hrun
      exact hflag1
    | some f =>
      obtain ⟨hist, hget, hrun⟩ := of_bind hrun
      obtain ⟨⟨failed, s⟩, hfill, hrun⟩ := of_bind hrun
      simp only [Td.fillCalls, hnext, hget, hfill] at h
      have hbusy1 := (congrArg IoU.busyOk (picked_unit td1 hist u f)).trans hflag1
      have hbusy := (h _ (.head _)).unit hbusy1 hfill
      cases failed with
      | false =>
        cases hrun
        rw [Td.afterFill_unit] at hfile
        cases (congrArg IoU.file (picked_unit td1 hist u f)).symm.trans (hbusy.symm.trans hfile)
      | true =>
        obtain ⟨td2, hdone, hrun⟩ := of_bind hrun
        simp only [hdone] at h
        refine ih ?_ (List.forall_mem_cons.1 h).2 hrun
        rw [(Td.fileDone_spec hdone).2.2.2.1, Td.afterFill_unit]
        exact hbusy

lemma FlagStep.keeps (h : FlagStep scale randMax o u td td')
    (hflag : (td.ioUs u).file = none → (td.ioUs u).busyOk = false) (hfile : (td'.ioUs u).file = none) :
    (td'.ioUs u).busyOk = false := by
  cases h with
  | fill hnone hserved hrun => exact setIoUFile_flag (hflag hnone) hserved hrun hfile
  | completed => simp [Td.land, Td.setIoU]
  | put hclear hrun =>
    rcases Td.putIoU_split hrun with ⟨-, rfl⟩ | ⟨f, td1, -, -, hput, rfl⟩
    · simpa [Td.linkFree, Td.setIoU, Td.unlink] using hclear
    · obtain ⟨_, _, _, -, rfl⟩ := Td.putFileLog_cases hput
      simpa [Td.linkFree, Td.setIoU, Td.unlink] using hclear
  | other hsame hback => exact hsame.trans (hflag (hback hfile))

/-- **The flag is fresh over the life of a unit**, in which its further requests are served and the
    flag is cleared before it is free again: no call of `fill_io_u` marks a drawn offset with it. -/
theorem busyOk_fresh_of_served (hstart : (td.ioUs u).busyOk = false)
    (hruns : Relation.ReflTransGen (FlagStep scale randMax o u) td td')
    (hfile : (td'.ioUs u).file = none)
    (hserved : ∀ c ∈ td'.fillCalls scale randMax o u picks, c.Served scale randMax o) :
    ∀ c ∈ td'.fillCalls scale randMax o u picks, c.Fresh scale randMax o := by
  have hflag : (td'.ioUs u).file = none → (td'.ioUs u).busyOk = false := by
    clear hfile hserved
    induction hruns with
    | refl => exact fun _ => hstart
    | tail _ hstep ih => exact hstep.keeps ih
  exact fun c hc => (hserved c hc).fresh (fillCalls_flag (hflag hfile) hserved c hc)

def threeFiles : ThreadOptions :=
  { defaultOptions with ddirRand := true, ddirSeqNr := 2, nrFiles := 3 }

/-- The start of the job; the first `short` files have no room for a block. -/
def shortFiles (short : Nat) : Td := {
  hist := { files := fun f =>
    let size := if f < short then 2048 else 65536
    { realFileSize := size, ioSize := size, fileMap := some fun _ => 0, numMaps := 1 } } }

/-- A draw of the first block of the file. -/
def firstBlock (f : FileId) : FilePick :=
  ⟨[⟨f, .succeeds, 0⟩], ⟨.read, false, ⟨fun _ => 0, fun _ => 0⟩, []⟩, 0, 0⟩

/-- A request of the first unit, from `set_io_u_file` to `put_io_u`. -/
def serveFirst (td : Td) : Except Fault Td := do
  let (_, td) ← td.setIoUFile threeFiles drawScale 0 false 0 [firstBlock 0]
  (td.land 0).putIoU 0 0

lemma serveFirst_steps (hfile : (td.ioUs 0).file = none)
    (hserved : ∀ c ∈ td.fillCalls drawScale 0 threeFiles 0 [firstBlock 0],
      c.Served drawScale 0 threeFiles) (h : serveFirst td = .ok td') :
    Relation.ReflTransGen (FlagStep drawScale 0 threeFiles 0) td td' := by
  obtain ⟨⟨failed, td1⟩, hrun, hput⟩ := of_bind h
  exact .head (.fill hfile hserved hrun) (.head .completed
    (.single (.put (by simp [Td.land, Td.setIoU]) hput)))

/-- The third request of the unit, behind a random and a further one, is drawn again. -/
theorem busyOk_fresh_third : ∃ td, Relation.ReflTransGen (FlagStep drawScale 0 threeFiles 0)
    (shortFiles 0) td ∧ (countSeq threeFiles td.issue.ddirSeqNr).1 = true ∧
      (td.fillCalls drawScale 0 threeFiles 0 [firstBlock 1]).length = 1 ∧
      ∀ c ∈ td.fillCalls drawScale 0 threeFiles 0 [firstBlock 1], c.Fresh drawScale 0 threeFiles := by
  have hserved : ∀ c ∈ (shortFiles 0).fillCalls drawScale 0 threeFiles 0 [firstBlock 0],
      c.Served drawScale 0 threeFiles := by decide +kernel
  obtain ⟨td1, hrun1, hfile1, hserved1, td2, hrun2, hfile2, hserved2, hseq, hone⟩ :
      ∃ td1, serveFirst (shortFiles 0) = .ok td1 ∧ (td1.ioUs 0).file = none ∧
        (∀ c ∈ td1.fillCalls drawScale 0 threeFiles 0 [firstBlock 0],
          c.Served drawScale 0 threeFiles) ∧
        ∃ td2, serveFirst td1 = .ok td2 ∧ (td2.ioUs 0).file = none ∧
          (∀ c ∈ td2.fillCalls drawScale 0 threeFiles 0 [firstBlock 1],
            c.Served drawScale 0 threeFiles) ∧ (countSeq threeFiles td2.issue.ddirSeqNr).1 = true ∧
          (td2.fillCalls drawScale 0 threeFiles 0 [firstBlock 1]).length = 1 := by
    decide +kernel
  have hruns := (serveFirst_steps rfl hserved hrun1).trans (serveFirst_steps hfile1 hserved1 hrun2)
  exact ⟨td2, hruns, hseq, hone, busyOk_fresh_of_served rfl hruns hfile2 hserved2⟩

/-- The calls of `fill_io_u` for the first unit, with the files in their order. -/
def firstCalls (short : Nat) : List FillCall :=
  (shortFiles short).fillCalls drawScale 0 threeFiles 0 ([0, 1, 2].map firstBlock)

/-- A further request that finds no room leaves the flag to the random one on the next file. -/
theorem busyOk_stale_third : ∃ c ∈ firstCalls 2, ¬c.Fresh drawScale 0 threeFiles := by
  have hst : ∃ c ∈ firstCalls 2, ddirRw c.draws.ddir = true ∧
      drawnOffset threeFiles (c.s.directed threeFiles c.draws) = true ∧
      ∃ s, pickRequest drawScale 0 threeFiles c.ioHistLen (c.s.directed threeFiles c.draws) c.draws =
          .ok (false, s) ∧ History.fileRandommap threeFiles s.file = true ∧ s.ioU.busyOk = true := by
    decide +kernel
  obtain ⟨c, hc, hddi, hdrawn, s, hpc, hmap, hbs⟩ := hst
  refine ⟨c, hc, fun hfr => ?_⟩
  have hnot := hfr s.ioU ⟨hddi, s, hpc, .inr hmap, rfl⟩ hbs
  cases hdrawn.symm.trans hnot

end FioSsd
