import FioSsd.Iolog.Log
import Mathlib.Data.BitVec

/-! # What reading an I/O log changes

Every piece that `read_iolog2` queues, unless it is a wait, is compared with `max_bs[rw]`. -/

namespace FioSsd

variable {d : Ddir} {lines : List (List UInt8)} {ns : List Nat} {a : Nat}

open List

variable {line text : List UInt8}

def lineLength (d : Ddir) (line : List UInt8) : Option Nat :=
  match scanIologLine line with
  | .four _ act _ bytes => if actDdir act = some d then some bytes.toNat else none
  | _ => none

def lineNotData (line : List UInt8) : Bool :=
  match scanIologLine line with
  | .two _ act => act = FileLog.act .opened || act = FileLog.act .closed
  | .four _ act _ _ => actDdir act = some .sync || actDdir act = some .datasync
  | _ => false

/-- The length that `read_iolog2` takes from a line for direction `d`. -/
def takenLength (readOnly : Bool) (d : Ddir) (line : List UInt8) : Option Nat :=
  if readOnly ∧ d = .write then none else (lineLength d line).map (· % 2 ^ 32)

def rwLength (pieces : List LogPiece) : BitVec 64 :=
  ((pieces.filter fun p => ddirRw p.ddir).map LogPiece.len).sum

lemma actDdir_cases (act : List UInt8) :
    actDdir act = none ∨ actDdir act = some .wait ∨ actDdir act = some .read ∨
      actDdir act = some .write ∨ actDdir act = some .sync ∨ actDdir act = some .datasync ∨
      actDdir act = some .trim := by
  unfold actDdir
  split_ifs <;> simp

lemma ddirRw_cases (h : ddirRw d = true) : d = .read ∨ d = .write := by
  cases d <;> simp_all [ddirRw]

lemma forall_ddirRw {P : Ddir → Prop} : (∀ d, ddirRw d = true → P d) ↔ P .read ∧ P .write := by
  constructor
  · intro h
    exact ⟨h .read rfl, h .write rfl⟩
  · rintro ⟨hread, hwr⟩ d hd
    rcases ddirRw_cases hd with rfl | rfl
    · exact hread
    · exact hwr

namespace IologRead

variable {readOnly : Bool} {s s' : IologRead}

structure Quiet (s s' : IologRead) : Prop where
  ioLogList : s'.ioLogList = s.ioLogList
  totalIoSize : s'.totalIoSize = s.totalIoSize
  optWords : s'.optWords = s.optWords
  maxBsUsed : s'.maxBsUsed = s.maxBsUsed

lemma queueLine_maxBsUsed (rw : Ddir) :
    (s.queueLine rw).maxBsUsed =
      if rw = .wait then s.maxBsUsed else s.maxBsUsed ++ [ddirIndex rw] := by
  unfold queueLine noteMaxBs
  split_ifs <;> rfl

lemma queueLine_optWords (rw : Ddir) (i : Int) :
    ((s.queueLine rw).optWords i).toNat =
      if rw ≠ .wait ∧ i = ddirIndex rw then max (s.optWords i).toNat s.bytes.toNat
      else (s.optWords i).toNat := by
  unfold queueLine noteMaxBs
  by_cases hw : rw = .wait
  · simp [hw]
  by_cases hi : i = ddirIndex rw
  · subst hi
    by_cases hlt : (s.optWords (ddirIndex rw)).toNat < s.bytes.toNat
    · simp [hw, hlt, max_eq_right hlt.le]
    · simp [hw, hlt, max_eq_left (Nat.not_lt.1 hlt)]
  · by_cases hlt : (s.optWords (ddirIndex rw)).toNat < s.bytes.toNat <;> simp [hw, hi, hlt]

lemma queueLine_total (rw : Ddir) (h : ddirRw rw = true ∨ rw = .wait) :
    (s.queueLine rw).totalIoSize + rwLength s.ioLogList =
      s.totalIoSize + rwLength (s.queueLine rw).ioLogList := by
  have hpc : rwLength [s.linePiece rw] = (s.linePiece rw).len := by
    rcases h with h | rfl
    · rcases ddirRw_cases h with rfl | rfl <;> simp [rwLength, linePiece, ddirRw]
    · simp [rwLength, linePiece, ddirRw, LogPiece.initIpo]
  have hls : rwLength (s.ioLogList ++ [s.linePiece rw]) =
      rwLength s.ioLogList + (s.linePiece rw).len := by
    rw [← hpc]
    simp [rwLength, filter_append]
  change s.totalIoSize + (s.linePiece rw).len + rwLength s.ioLogList =
    s.totalIoSize + rwLength (s.ioLogList ++ [s.linePiece rw])
  rw [hls]
  ring

lemma readLine_cases (readOnly : Bool) (s : IologRead) (line : List UInt8) :
    (Quiet s (s.readLine readOnly line) ∧ lineNotData line = false ∧
      ∀ d, ddirRw d = true → takenLength readOnly d line = none) ∨
    ∃ s1 rw, Quiet s s1 ∧ s.readLine readOnly line = s1.queueLine rw ∧
      (lineNotData line = false → ddirRw rw = true ∨ rw = .wait) ∧
      (lineNotData line = true → rw ≠ .wait ∧ ddirRw rw = false) ∧
      ∀ d, ddirRw d = true →
        takenLength readOnly d line = if d = rw then some s1.bytes.toNat else none := by
  unfold readLine lineNotData takenLength lineLength
  cases hsc : scanIologLine line with
  | zero | one fname | three fname act offset => exact .inl ⟨⟨rfl, rfl, rfl, rfl⟩, rfl, by simp⟩
  | two fname act =>
    by_cases hadd : act = FileLog.act .add
    · subst hadd
      exact .inl ⟨⟨rfl, rfl, rfl, rfl⟩, rfl, by simp⟩
    by_cases hopn : act = FileLog.act .opened
    · subst hopn
      exact .inr ⟨{ s with fileno := s.table.getFileno fname, fileAction := .openFile }, .inval,
        ⟨rfl, rfl, rfl, rfl⟩, rfl, by simp, by simp [ddirRw], by simp [forall_ddirRw]⟩
    by_cases hcl : act = FileLog.act .closed
    · subst hcl
      exact .inr ⟨{ s with fileno := s.table.getFileno fname, fileAction := .closeFile }, .inval,
        ⟨rfl, rfl, rfl, rfl⟩, rfl, by simp, by simp [ddirRw], by simp [forall_ddirRw]⟩
    · refine .inl ⟨?_, by simp [hopn, hcl], by simp⟩
      simp only [fileLine, hadd, hopn, hcl, if_false]
      exact ⟨rfl, rfl, rfl, rfl⟩
  | four fname act offset bytes =>
    rcases actDdir_cases act with h | h | h | h | h | h | h
    · simp only [h]
      exact .inl ⟨⟨rfl, rfl, rfl, rfl⟩, by simp, by simp⟩
    · simp only [h]
      exact .inr ⟨{ s with offset := offset, bytes := bytes.setWidth 32, waits := s.waits + 1 },
        .wait, ⟨rfl, rfl, rfl, rfl⟩, rfl, by simp, by simp, by simp [forall_ddirRw]⟩
    · simp only [h]
      exact .inr ⟨{ s with offset := offset, bytes := bytes.setWidth 32, reads := s.reads + 1 },
        .read, ⟨rfl, rfl, rfl, rfl⟩, rfl, by simp [ddirRw], by simp, by simp [forall_ddirRw]⟩
    · simp only [h]
      cases readOnly with
      | true =>
        -- a write is skipped in read-only mode
        exact .inl ⟨⟨rfl, rfl, rfl, rfl⟩, by simp, by simp [forall_ddirRw]⟩
      | false =>
        exact .inr ⟨{ s with
            offset := offset, bytes := bytes.setWidth 32, writes := s.writes + 1 },
          .write, ⟨rfl, rfl, rfl, rfl⟩, rfl, by simp [ddirRw], by simp, by simp [forall_ddirRw]⟩
    · simp only [h]
      exact .inr ⟨{ s with offset := offset, bytes := bytes.setWidth 32 }, .sync,
        ⟨rfl, rfl, rfl, rfl⟩, rfl, by simp, by simp [ddirRw], by simp [forall_ddirRw]⟩
    · simp only [h]
      exact .inr ⟨{ s with offset := offset, bytes := bytes.setWidth 32 }, .datasync,
        ⟨rfl, rfl, rfl, rfl⟩, rfl, by simp, by simp [ddirRw], by simp [forall_ddirRw]⟩
    · -- a trim is refused as a bad direction
      simp only [h]
      exact .inl ⟨⟨rfl, rfl, rfl, rfl⟩, by simp, by simp [forall_ddirRw]⟩

structure ReadEffects (readOnly : Bool) (lines : List (List UInt8)) (s s' : IologRead) : Prop where
  indices : ∀ i ∈ s'.maxBsUsed, i ∈ s.maxBsUsed ∨ i = ddirIndex .read ∨ i = ddirIndex .write
  maxBs : ∀ d, ddirRw d = true →
    (s'.optWords (ddirIndex d)).toNat =
      (lines.filterMap (takenLength readOnly d)).foldl max (s.optWords (ddirIndex d)).toNat
  total : s'.totalIoSize + rwLength s.ioLogList = s.totalIoSize + rwLength s'.ioLogList
  others : ∀ i, i ≠ ddirIndex .read → i ≠ ddirIndex .write → s'.optWords i = s.optWords i

lemma Quiet.readEffects (h : Quiet s s')
    (hln : ∀ d, ddirRw d = true → takenLength readOnly d line = none) :
    ReadEffects readOnly [line] s s' := by
  refine ⟨?_, ?_, by rw [h.totalIoSize, h.ioLogList], fun i _ _ => by rw [h.optWords]⟩
  · intro i hi
    rw [h.maxBsUsed] at hi
    exact .inl hi
  · intro d hd
    simp [hln d hd, h.optWords]

lemma readEffects_queueLine {rw : Ddir} (h : ddirRw rw = true ∨ rw = .wait)
    (hln : ∀ d, ddirRw d = true →
      takenLength readOnly d line = if d = rw then some s.bytes.toNat else none) :
    ReadEffects readOnly [line] s (s.queueLine rw) := by
  -- the index of a read or write is one of the two
  have hix : rw ≠ .wait → ddirIndex rw = ddirIndex .read ∨ ddirIndex rw = ddirIndex .write := by
    intro hw
    rcases ddirRw_cases (h.resolve_right hw) with rfl | rfl
    · exact .inl rfl
    · exact .inr rfl
  refine ⟨?_, ?_, queueLine_total rw h, ?_⟩
  · intro i hi
    rw [queueLine_maxBsUsed] at hi
    split_ifs at hi with hw
    · exact .inl hi
    · rcases mem_append.1 hi with hi | hi
      · exact .inl hi
      · rw [mem_singleton.1 hi]
        exact .inr (hix hw)
  · intro d hd
    rw [queueLine_optWords, filterMap_cons, hln d hd]
    by_cases hdr : d = rw
    · subst hdr
      have hw : d ≠ .wait := by
        rintro rfl
        cases hd
      simp [hw]
    · have hne : ¬ (rw ≠ .wait ∧ ddirIndex d = ddirIndex rw) := by
        rintro ⟨hw, heq⟩
        rcases ddirRw_cases hd with rfl | rfl <;>
          rcases ddirRw_cases (h.resolve_right hw) with rfl | rfl <;>
          first | exact hdr rfl | cases heq
      simp [hdr, hne]
  · intro i h0 h1
    have hne : ¬ (rw ≠ .wait ∧ i = ddirIndex rw) := by
      rintro ⟨hw, rfl⟩
      exact (hix hw).elim h0 h1
    apply BitVec.eq_of_toNat_eq
    rw [queueLine_optWords, if_neg hne]

lemma ReadEffects.trans {s'' : IologRead}
    (h : ReadEffects readOnly [line] s s') (h' : ReadEffects readOnly lines s' s'') :
    ReadEffects readOnly (line :: lines) s s'' := by
  refine ⟨?_, ?_, ?_, fun i h0 h1 => (h'.others i h0 h1).trans (h.others i h0 h1)⟩
  · intro i hi
    rcases h'.indices i hi with hi | hi
    · exact h.indices i hi
    · exact .inr hi
  · intro d hd
    rw [h'.maxBs d hd, h.maxBs d hd, ← foldl_append, ← filterMap_append, singleton_append]
  · have hfr := h.total
    have hrs := h'.total
    linear_combination hfr + hrs

lemma readLine_effects (hln : lineNotData line = false) :
    ReadEffects readOnly [line] s (s.readLine readOnly line) := by
  obtain ⟨hqt, -, htk⟩ | ⟨s1, rw, hqt, heq, hrw, -, htk⟩ := readLine_cases readOnly s line
  · exact hqt.readEffects htk
  · rw [heq]
    have h := readEffects_queueLine (hrw hln) htk
    obtain ⟨hls, htl, hopt, hus⟩ := hqt
    exact ⟨hus ▸ h.indices, hopt ▸ h.maxBs, htl ▸ hls ▸ h.total, hopt ▸ h.others⟩

lemma readLines_effects (h : ∀ line ∈ lines, lineNotData line = false) :
    ReadEffects readOnly lines s (s.readLines readOnly lines) := by
  induction lines generalizing s with
  | nil => exact ⟨fun i hi => .inl hi, fun d _ => rfl, rfl, fun i _ _ => rfl⟩
  | cons line lines ih =>
    exact (readLine_effects (h line (.head _))).trans (ih fun l hl => h l (.tail _ hl))

lemma readLine_maxBsUsed_subset (line : List UInt8) :
    s.maxBsUsed ⊆ (s.readLine readOnly line).maxBsUsed := by
  obtain ⟨hqt, -, -⟩ | ⟨s1, rw, hqt, heq, -⟩ := readLine_cases readOnly s line
  · rw [hqt.maxBsUsed]
    exact List.Subset.refl _
  · rw [heq, queueLine_maxBsUsed, hqt.maxBsUsed]
    split_ifs
    · exact List.Subset.refl _
    · exact subset_append_left _ _

lemma readLines_maxBsUsed_subset (lines : List (List UInt8)) :
    s.maxBsUsed ⊆ (s.readLines readOnly lines).maxBsUsed := by
  induction lines generalizing s with
  | nil => exact List.Subset.refl _
  | cons line lines ih => exact List.Subset.trans (readLine_maxBsUsed_subset line) ih

section

variable (readOnly : Bool) (s : IologRead)

lemma readLine_notData (h : lineNotData line) :
    ∃ i ∈ (s.readLine readOnly line).maxBsUsed, i ≠ ddirIndex .read ∧ i ≠ ddirIndex .write := by
  obtain ⟨-, hdt, -⟩ | ⟨s1, rw, -, heq, -, hrw, -⟩ := readLine_cases readOnly s line
  · rw [h] at hdt
    cases hdt
  · obtain ⟨hw, hnot⟩ := hrw h
    refine ⟨ddirIndex rw, ?_, ?_⟩
    · rw [heq, queueLine_maxBsUsed, if_neg hw]
      simp
    · cases rw <;> simp_all [ddirIndex, ddirRw]

lemma readLines_notData
    (h : line ∈ lines) (hln : lineNotData line) :
    ∃ i ∈ (s.readLines readOnly lines).maxBsUsed, i ≠ ddirIndex .read ∧ i ≠ ddirIndex .write := by
  induction lines generalizing s with
  | nil => cases h
  | cons first lines ih =>
    rcases mem_cons.1 h with rfl | h
    · obtain ⟨i, hi, hne⟩ := readLine_notData readOnly s hln
      exact ⟨i, readLines_maxBsUsed_subset lines hi, hne⟩
    · exact ih _ h

lemma setTdDdir_quiet : Quiet s (s.setTdDdir readOnly).1 := by
  obtain ⟨tdDdir, h⟩ := s.setTdDdir_fst readOnly
  rw [h]
  exact ⟨rfl, rfl, rfl, rfl⟩

end

lemma le_foldl_max {n : Nat} (h : n = a ∨ n ∈ ns) : n ≤ ns.foldl max a := by
  induction ns generalizing a n with
  | nil => exact (h.resolve_right not_mem_nil).le
  | cons m ns ih =>
    rcases h with rfl | h
    · have hmax : max n m ≤ ns.foldl max (max n m) := ih (.inl rfl)
      exact (le_max_left n m).trans hmax
    rcases mem_cons.1 h with rfl | h
    · have hmax : max a n ≤ ns.foldl max (max a n) := ih (.inl rfl)
      exact (le_max_right a n).trans hmax
    · exact ih (.inr h)

lemma foldl_max_of_le (h : ∀ n ∈ ns, n ≤ a) : ns.foldl max a = a := by
  induction ns with
  | nil => rfl
  | cons m ns ih =>
    rw [foldl_cons, max_eq_left (h m mem_cons_self)]
    exact ih fun n hn => h n (mem_cons_of_mem _ hn)

def loggedLengths (d : Ddir) (text : List UInt8) : List Nat :=
  (Scan.bufLines 4095 [] text).filterMap (lineLength d)

/-- Reading changes only what it should: the indices into `max_bs`, its entries, `total_io_size` and
    the other options. -/
def EffectsAsMeant (readOnly : Bool) (s : IologRead) (text : List UInt8) : Prop :=
  let s' := (s.readIolog2 readOnly text).1
  (∀ i ∈ s'.maxBsUsed, i = ddirIndex .read ∨ i = ddirIndex .write) ∧
  (∀ d, ddirRw d = true →
    (s'.optWords (ddirIndex d)).toNat =
      (loggedLengths d text).foldl max (s.optWords (ddirIndex d)).toNat) ∧
  s'.totalIoSize = s.totalIoSize + rwLength s'.ioLogList ∧
  ∀ i, i ≠ ddirIndex .read → i ≠ ddirIndex .write → s'.optWords i = s.optWords i

/-- No line opens, closes or syncs a file, the lengths of reads and writes fit `unsigned int`, and in
    read-only mode no write is longer than `max_bs[DDIR_WRITE]`. -/
def OnlyData (readOnly : Bool) (optWords : Int → BitVec 32) (text : List UInt8) : Prop :=
  (∀ line ∈ Scan.bufLines 4095 [] text, lineNotData line = false) ∧
  (∀ d, ddirRw d = true → ∀ n ∈ loggedLengths d text, n < 2 ^ 32) ∧
  (readOnly = true → ∀ n ∈ loggedLengths .write text, n ≤ (optWords (ddirIndex .write)).toNat)

lemma filterMap_takenLength (hd : ¬ (readOnly = true ∧ d = .write))
    (hlen : ∀ n ∈ lines.filterMap (lineLength d), n < 2 ^ 32) :
    lines.filterMap (takenLength readOnly d) = lines.filterMap (lineLength d) := by
  apply filterMap_congr
  intro line hln
  rw [takenLength, if_neg hd]
  cases h : lineLength d line with
  | none => rfl
  | some n => exact congrArg some (Nat.mod_eq_of_lt (hlen n (mem_filterMap.2 ⟨line, hln, h⟩)))

lemma filterMap_takenLength_readOnly (lines : List (List UInt8)) :
    lines.filterMap (takenLength true .write) = [] := by
  rw [filterMap_eq_nil_iff]
  intro line _
  simp [takenLength]

lemma readIolog2_effects (hln : ∀ line ∈ Scan.bufLines 4095 [] text, lineNotData line = false) :
    ReadEffects readOnly (Scan.bufLines 4095 [] text) s (s.readIolog2 readOnly text).1 := by
  have h : ReadEffects readOnly _ s.freeReleaseFiles _ := readLines_effects hln
  obtain ⟨hls, htl, hopt, hus⟩ := setTdDdir_quiet readOnly
    (s.freeReleaseFiles.readLines readOnly (Scan.bufLines 4095 [] text))
  refine ⟨?_, ?_, ?_, ?_⟩
  · rw [readIolog2, hus]
    exact h.indices
  · rw [readIolog2, hopt]
    exact h.maxBs
  · rw [readIolog2, htl, hls]
    exact h.total
  · rw [readIolog2, hopt]
    exact h.others

lemma effectsAsMeant_of_onlyData (hs : s.ioLogList = [] ∧ s.maxBsUsed = [])
    (h : OnlyData readOnly s.optWords text) : EffectsAsMeant readOnly s text := by
  obtain ⟨hln, hlen, hro⟩ := h
  have heff : ReadEffects readOnly _ s _ := readIolog2_effects hln
  refine ⟨?_, ?_, ?_, heff.others⟩
  · intro i hi
    have := heff.indices i hi
    rw [hs.2] at this
    exact this.resolve_left not_mem_nil
  · intro d hd
    rw [heff.maxBs d hd]
    by_cases hsk : readOnly = true ∧ d = .write
    · obtain ⟨rfl, rfl⟩ := hsk
      rw [filterMap_takenLength_readOnly, foldl_max_of_le (hro rfl)]
      rfl
    · rw [filterMap_takenLength hsk (hlen d hd)]
      rfl
  · have := heff.total
    rw [hs.1] at this
    simpa [rwLength] using this

lemma onlyData_of_effectsAsMeant (h : EffectsAsMeant readOnly s text) :
    OnlyData readOnly s.optWords text := by
  obtain ⟨hind, hmax, -, -⟩ := h
  have hln : ∀ line ∈ Scan.bufLines 4095 [] text, lineNotData line = false := by
    intro line hmem
    by_contra hlin
    obtain ⟨i, hi, hread, hwr⟩ :=
      readLines_notData readOnly s.freeReleaseFiles hmem (by simpa using hlin)
    rw [← (setTdDdir_quiet readOnly _).maxBsUsed] at hi
    exact (hind i hi).elim hread hwr
  refine ⟨hln, ?_, ?_⟩
  · -- a logged length is at most the final entry, which has 32 bits
    intro d hd n hn
    have hle := le_foldl_max (a := (s.optWords (ddirIndex d)).toNat) (.inr hn)
    rw [← hmax d hd] at hle
    exact hle.trans_lt (BitVec.isLt _)
  · -- in read-only mode the entry for writes stays as it was
    rintro rfl n hn
    have hle := le_foldl_max (a := (s.optWords (ddirIndex .write)).toNat) (.inr hn)
    have heff : ReadEffects true _ s _ := readIolog2_effects hln
    rw [← hmax .write rfl, heff.maxBs .write rfl, filterMap_takenLength_readOnly] at hle
    exact hle

/-- **Reading a log changes only what it should exactly if the log only reads, writes and waits**,
    with lengths that fit. -/
theorem effectsAsMeant_iff (readOnly : Bool) (table : FileTable) (totalIoSize : BitVec 64)
    (optWords : Int → BitVec 32) (tdDdir : TdDdir) (offset : BitVec 64) (bytes : BitVec 32)
    (text : List UInt8) :
    EffectsAsMeant readOnly (start table totalIoSize optWords tdDdir offset bytes) text ↔
      OnlyData readOnly optWords text := by
  constructor
  · intro h
    exact onlyData_of_effectsAsMeant h
  · intro h
    exact effectsAsMeant_of_onlyData ⟨rfl, rfl⟩ h

/-- The log of one read of 4096 bytes: the close of the file is compared with `max_bs[-1]` under the
    length of the read, so that `min_bs[DDIR_WRITE]` becomes 4096. -/
theorem close_overwrites_minBs :
    ¬ EffectsAsMeant false
      (start ⟨fun _ => none, 0, 0, 1, none⟩ 0 (fun i => if i = -1 then 512 else 4096) .read 0 0)
      (ascii ['f', ' ', 'a', 'd', 'd', '\n', 'f', ' ', 'o', 'p', 'e', 'n', '\n',
        'f', ' ', 'r', 'e', 'a', 'd', ' ', '0', ' ', '4', '0', '9', '6', '\n',
        'f', ' ', 'c', 'l', 'o', 's', 'e', '\n']) := by
  rintro ⟨-, -, -, hoth⟩
  have hmnb := hoth (-1) (by decide) (by decide)
  revert hmnb
  decide +kernel

end IologRead

end FioSsd
