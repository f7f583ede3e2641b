import FioSsd.Backend.GetIoU
import FioSsd.Backend.FillBuffer

/-! # Refilling the buffer of a write -/

namespace FioSsd

open Option

variable {log : List BufWrite} {fuel : Nat}

/-- What `get_io_u` finds for a unit without a request: an entry to verify or trim, nothing, or what
    `set_io_u_file` or `read_iolog_get` fill in. -/
inductive NextRequest
  | verify (offset buflen : BitVec 64) (file : FileId)
  | trim (offset buflen : BitVec 64) (file : FileId)
  | nothing
  | request (ddir : Ddir) (offset buflen : BitVec 64) (file : FileId)

/-- What a call of `get_io_u` meets: the list the unit is on, the request, what the random generator
    returns, and whether `td_io_prep` fails. -/
structure GetCall where
  requeued : Bool
  next : NextRequest
  rand : BitVec 64
  (noio prepFails : Bool)

namespace IoU

def taken (u : IoU) (c : GetCall) : IoU :=
  if c.requeued then u else { u with buflen := 0, resid := 0, file := none, endIo := none }

/-- The labels `out` and `err_put` of `get_io_u`: the flag says that the unit is returned. -/
def out (u : IoU) (c : GetCall) : Bool × IoU :=
  if c.prepFails then (false, { u with file := none }) else (true, u)

variable (o : FillOpts)

def refillWrite (u : IoU) (c : GetCall) (fuel : Nat) :
    Option ((Bool × IoU) × List BufWrite) :=
  (ioUFillBuffer o c.rand (u.xferBuflen.setWidth 32) (u.xferBuflen.setWidth 32) fuel).map fun log =>
    (({ u with
        bufFilledLen := 0, buf := log.foldl BufWrite.store u.buf, xferBuf := 0
        xferBuflen := u.buflen }).out c, log)

/-- `get_io_u` with `refill_buffers` and no verification: whether the unit is returned, the unit,
    and what was written into its buffer. -/
def refillGet (u : IoU) (c : GetCall) (fuel : Nat) :
    Option ((Bool × IoU) × List BufWrite) :=
  let u := u.taken c
  -- from a requeue; an entry to verify or trim is not looked for either
  if u.file.isSome then some (u.out c, [])
  else
    match c.next with
    | .verify offset buflen file =>
      some (({ u with
        offset := offset, buflen := buflen, file := some file, ddir := .read, xferBuf := 0
        xferBuflen := buflen }).out c, [])
    | .trim offset buflen file =>
      some (({ u with
        offset := offset, buflen := buflen, file := some file, ddir := .trim
        xferBuflen := buflen }).out c, [])
    | .nothing => some ((false, { u with file := none }), [])
    | .request ddir offset buflen file =>
      let u := { u with ddir := ddir, offset := offset, buflen := buflen, file := some file }
      if ddirRw ddir && buflen = 0 && !c.noio then some ((false, { u with file := none }), [])
      else if ddir = .write then u.refillWrite o c fuel
      else
        let filled : BitVec 64 := if ddir = .read then 0 else u.bufFilledLen
        some (({ u with bufFilledLen := filled, xferBuf := 0, xferBuflen := buflen }).out c, [])

/-- A unit in any stage of its uses, from `init_io_u` on: it is handed out, left with the rest of a
    short transfer, and put back. -/
inductive UsedUnit (o : FillOpts) : IoU → Prop
  | init : UsedUnit o default
  | get {u u' : IoU} {returned : Bool} {log : List BufWrite} (c : GetCall) (fuel : Nat)
      (h : UsedUnit o u) (hget : u.refillGet o c fuel = some ((returned, u'), log)) : UsedUnit o u'
  | short {u : IoU} (resid : BitVec 32) (h : UsedUnit o u) :
      UsedUnit o { u with resid := resid }.advance
  | put {u : IoU} (h : UsedUnit o u) : UsedUnit o { u with file := none }

def RefillsWhole (u : IoU) (c : GetCall) : Prop :=
  ∀ fuel u' log, u.refillGet o c fuel = some ((true, u'), log) → u'.ddir = .write →
    ∀ x < u'.buflen.toNat, Touched log x

def refillLen (u : IoU) : BitVec 32 := u.xferBuflen.setWidth 32

/-- What a refill needs: no requeued write with bytes in it, and for a new write a length from the
    use before that covers it. -/
def RefillCovers (u : IoU) (c : GetCall) : Prop :=
  c.prepFails = false →
    if (u.taken c).file.isSome then u.ddir = .write → u.buflen = 0
    else ∀ offset buflen file, c.next = .request .write offset buflen file →
      FillReturns o u.refillLen u.refillLen → buflen.toNat ≤ fillEnd o u.refillLen u.refillLen

variable {o : FillOpts} {u u' : IoU} {c : GetCall}

lemma out_returned (h : u.out c = (true, u')) : c.prepFails = false ∧ u' = u := by
  unfold out at h
  split_ifs at h with hpr
  · simp at h
  · exact ⟨by simpa using hpr, (Prod.mk.inj h).2.symm⟩

lemma taken_xferBuflen (u : IoU) (c : GetCall) : (u.taken c).xferBuflen = u.xferBuflen := by
  unfold taken
  split_ifs <;> rfl

lemma taken_of_file (h : (u.taken c).file.isSome) : u.taken c = u := by
  unfold taken at h ⊢
  split_ifs at h ⊢
  · rfl
  · cases h

lemma refillGet_write (h : u.refillGet o c fuel = some ((true, u'), log)) (hwr : u'.ddir = .write) :
    c.prepFails = false ∧ (((u.taken c).file.isSome = true ∧ u' = u ∧ log = []) ∨
        ((u.taken c).file.isSome = false ∧ ∃ offset file,
          c.next = .request .write offset u'.buflen file ∧
            ioUFillBuffer o c.rand u.refillLen u.refillLen fuel = some log)) := by
  simp only [refillGet] at h
  cases hfl : (u.taken c).file.isSome with
  | true =>
    rw [hfl, if_pos rfl] at h
    obtain ⟨hout, rfl⟩ := Prod.mk.inj (some.inj h)
    obtain ⟨hpr, rfl⟩ := out_returned hout
    exact ⟨hpr, .inl ⟨rfl, taken_of_file hfl, rfl⟩⟩
  | false =>
    rw [hfl, if_neg (by simp)] at h
    split at h
    · obtain ⟨hout, -⟩ := Prod.mk.inj (some.inj h)
      obtain ⟨-, rfl⟩ := out_returned hout
      cases hwr
    · obtain ⟨hout, -⟩ := Prod.mk.inj (some.inj h)
      obtain ⟨-, rfl⟩ := out_returned hout
      cases hwr
    · cases h
    · next ddir offset buflen file hnx =>
        split_ifs at h with h0 hddi hread
        · cases h
        · subst hddi
          obtain ⟨log', hfil, hpai⟩ := map_eq_some_iff.1 h
          obtain ⟨hout, rfl⟩ := Prod.mk.inj hpai
          obtain ⟨hpr, rfl⟩ := out_returned hout
          refine ⟨hpr, .inr ⟨rfl, offset, file, hnx, ?_⟩⟩
          rw [refillLen, ← taken_xferBuflen u c]
          exact hfil
        all_goals
          obtain ⟨hout, -⟩ := Prod.mk.inj (some.inj h)
          obtain ⟨-, rfl⟩ := out_returned hout
          exact absurd hwr hddi

lemma refillGet_requeued (h : (u.taken c).file.isSome) (hpr : c.prepFails = false)
    (fuel : Nat) : u.refillGet o c fuel = some ((true, u), []) := by
  simp only [refillGet]
  rw [if_pos h, taken_of_file h, out, hpr]
  rfl

lemma refillGet_fill {offset buflen : BitVec 64} {file : FileId}
    (hfl : (u.taken c).file.isSome = false) (hpr : c.prepFails = false)
    (hnx : c.next = .request .write offset buflen file) (hlen : buflen ≠ 0)
    (h : ioUFillBuffer o c.rand u.refillLen u.refillLen fuel = some log) :
    ∃ u', u.refillGet o c fuel = some ((true, u'), log) ∧ u'.ddir = .write ∧ u'.buflen = buflen := by
  rw [refillLen, ← taken_xferBuflen u c] at h
  simp only [refillGet]
  rw [hfl, if_neg (by simp), hnx]
  simp only [refillWrite, hlen, decide_false, Bool.and_false, Bool.false_and, Bool.false_eq_true,
    if_false, if_true, h, map_some, out, hpr]
  exact ⟨_, rfl, rfl, rfl⟩

/-- **A write is refilled over its whole length exactly if** it is not a requeued one and the fill,
    by the length of the use before, reaches its end. -/
theorem refillsWhole_iff (o : FillOpts) (u : { u : IoU // UsedUnit o u }) (c : GetCall) :
    RefillsWhole o u.1 c ↔ RefillCovers o u.1 c := by
  obtain ⟨u, -⟩ := u
  constructor
  · intro hwh hpr
    split_ifs with hfl
    · intro hwr
      have htch := hwh 0 u [] (refillGet_requeued hfl hpr 0) hwr
      by_contra hlen
      have hpos := Nat.pos_of_ne_zero fun h0 => hlen (by
        simpa using BitVec.eq_of_toNat_eq (y := 0#64) h0)
      obtain ⟨w, hw, -⟩ := htch 0 hpos
      cases hw
    · intro offset buflen file hnx hrtr
      obtain ⟨fuel, log, hfil⟩ := (fill_returns_iff (r := c.rand)).2 hrtr
      by_cases hlen : buflen = 0
      · rw [hlen]
        exact Nat.zero_le _
      · obtain ⟨u', hget, hwr, rfl⟩ := refillGet_fill (by simpa using hfl) hpr hnx hlen hfil
        have htch := hwh fuel u' log hget hwr
        by_contra hsh
        have hend := (touched_iff_of_fill hfil _).1 (htch _ (Nat.lt_of_not_le hsh))
        exact absurd hend (lt_irrefl _)
  · intro hcvr fuel u' log hget hwr x hx
    obtain ⟨hpr, ⟨hfl, rfl, rfl⟩ | ⟨hfl, offset, file, hnx, hfil⟩⟩ := refillGet_write hget hwr
    · have h0 := hcvr hpr
      rw [if_pos hfl] at h0
      rw [h0 hwr] at hx
      exact absurd hx (Nat.not_lt_zero x)
    · have hln := hcvr hpr
      rw [if_neg (by simp [hfl])] at hln
      have hend := hln offset u'.buflen file hnx (fill_returns_iff.1 ⟨fuel, log, hfil⟩)
      exact (touched_iff_of_fill hfil x).2 (hx.trans_le hend)

def randomFill : FillOpts := { zeroBuffers := false, compressPercentage := 0, compressChunk := 0 }

def newWrite : GetCall :=
  { requeued := false, next := .request .write 0 4096 0, rand := 1, noio := false
    prepFails := false }

theorem refill_first_write :
    UsedUnit randomFill default ∧ ¬ RefillsWhole randomFill default newWrite := by
  refine ⟨.init, fun hwh => ?_⟩
  obtain ⟨w, hw, hcvr⟩ := hwh 0 _ _ rfl rfl 0 (by decide)
  rcases List.mem_singleton.1 hw with rfl
  revert hcvr
  decide

end IoU

end FioSsd
