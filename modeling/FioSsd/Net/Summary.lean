import FioSsd.Net.Clients

/-! # The summary of all clients

Every client sends its end statistics (`TS`) and later `QUIT`. -/

namespace FioSsd

variable {msg : ClientMsg} {je : JobsEta Word} {start : List (Nat × Nat)}
  {clients : List FioClient} {fds : List Nat} {p q steps : List Step} {st : Step}

open List ClientPool ClientOut

def ClientOut.isSummary : ClientOut → Bool
  | .etaStatus _ _ => false
  | _ => true

def ClientOut.isSummed : ClientOut → Bool
  | .summed _ => true
  | _ => false

namespace ClientPool

def summary (s : ClientPool) : List ClientOut := s.out.filter ClientOut.isSummary

def ids (s : ClientPool) : List (Nat × Nat) := s.clients.map fun c => (c.fd, c.refs)

structure Quiet (s s' : ClientPool) : Prop where
  ids : s'.ids = s.ids
  clients : s'.sumStatClients = s.sumStatClients
  sums : s'.sums = s.sums
  summary : s'.summary = s.summary

variable {s s' s'' : ClientPool} {fd e : Nat} {c : FioClient}

lemma Quiet.refl (s : ClientPool) : Quiet s s := ⟨rfl, rfl, rfl, rfl⟩

lemma Quiet.trans (h : Quiet s s') (h' : Quiet s' s'') : Quiet s s'' :=
  ⟨h'.ids.trans h.ids, h'.clients.trans h.clients, h'.sums.trans h.sums, h'.summary.trans h.summary⟩

lemma quiet_setClient {f : FioClient → FioClient} (h : Keeps f) : Quiet s (s.setClient fd f) := by
  refine ⟨?_, rfl, rfl, rfl⟩
  simp only [ids, setClient, map_map]
  apply map_congr_left
  intro x _
  by_cases hx : x.fd = fd
  · simp [hx, h.fd, h.refs]
  · simp [hx]

lemma quiet_decJobsEta (h : s.decJobsEta e = some s') : Quiet s s' := by
  unfold decJobsEta at h
  split at h
  · cases h
  · split at h
    · cases h
      refine ⟨rfl, rfl, rfl, ?_⟩
      simp [summary, filter_append, isSummary]
    · cases h
      exact ⟨rfl, rfl, rfl, rfl⟩

lemma quiet_addEta (h : s.addEta e je = some s') : Quiet s s' := by
  unfold addEta at h
  split at h
  · cases h
  · cases h
    exact ⟨rfl, rfl, rfl, rfl⟩

lemma quiet_decSkipped {n : Nat} (h : decSkipped e n s = some s') : Quiet s s' := by
  induction n generalizing s with
  | zero =>
    obtain rfl := Option.some.inj h
    exact Quiet.refl s
  | succ n ih =>
    obtain ⟨s1, hdec, hrs⟩ := Option.bind_eq_some_iff.1 h
    exact (quiet_decJobsEta hdec).trans (ih hrs)

lemma requestLoop_ids {cs cs' : List FioClient} {skipped : Nat}
    (h : requestLoop e cs = some (cs', skipped)) :
    (cs'.map fun c => (c.fd, c.refs)) = cs.map fun c => (c.fd, c.refs) := by
  induction cs generalizing cs' skipped with
  | nil =>
    cases h
    rfl
  | cons c cs ih =>
    obtain ⟨⟨rest, k⟩, hrs, hc⟩ := Option.bind_eq_some_iff.1 h
    have htl := ih hrs
    split_ifs at hc
    all_goals
      cases hc
      simp [htl]

lemma quiet_requestClientEtas (h : s.requestClientEtas = some s') : Quiet s s' := by
  obtain ⟨⟨cs', skipped⟩, hlp, hdec⟩ := Option.bind_eq_some_iff.1 h
  have hrs := quiet_decSkipped hdec
  exact ⟨hrs.ids.trans (requestLoop_ids hlp), hrs.clients, hrs.sums, hrs.summary⟩

lemma quiet_receiveEta (h : s.receiveEta fd e je = some s') : Quiet s s' := by
  unfold receiveEta at h
  split at h
  · cases h
  · split_ifs at h
    obtain ⟨s1, hadd, hdec⟩ := Option.bind_eq_some_iff.1 h
    refine (quiet_setClient ?_).trans ((quiet_addEta hadd).trans (quiet_decJobsEta hdec))
    exact ⟨fun _ => rfl, fun _ => rfl⟩

lemma find_ids (s : ClientPool) (fd : Nat) :
    s.ids.find? (fun p => decide (p.1 = fd)) = (s.findClient fd).map fun c => (c.fd, c.refs) := by
  rw [ids, List.find?_map, findClient]
  rfl

lemma findClient_of_ids (hids : s'.ids = s.ids) (h : s.findClient fd = some c) :
    ∃ c', s'.findClient fd = some c' ∧ c'.refs = c.refs := by
  have hfn := find_ids s' fd
  rw [hids, find_ids, h, Option.map_some] at hfn
  cases h' : s'.findClient fd with
  | none => simp [h'] at hfn
  | some c' =>
    rw [h', Option.map_some, Option.some.injEq, Prod.mk.injEq] at hfn
    exact ⟨c', rfl, hfn.2.symm⟩

lemma ids_setClient_refs (g : Nat → Nat) :
    (s.setClient fd fun c => { c with refs := g c.refs }).ids =
      s.ids.map fun p => if p.1 = fd then (p.1, g p.2) else p := by
  simp only [ids, setClient, map_map]
  apply map_congr_left
  intro x _
  by_cases hx : x.fd = fd
  all_goals simp [hx]

lemma quiet_pollIn (hmsg : ∀ s s' : ClientPool, s.handleClient fd msg = some s' → Quiet s s')
    (hfn : s.findClient fd = some c) (hrf : c.refs = 1) (h : s.pollIn fd msg = some s') :
    Quiet s s' := by
  rw [pollIn, hfn] at h
  obtain ⟨s1, hhnd, hput⟩ := Option.bind_eq_some_iff.1 h
  have hqt := hmsg _ _ hhnd
  obtain ⟨c1, hfn1, hrf1⟩ := findClient_of_ids hqt.ids (findClient_held hfn)
  rw [removeClient_of_two_le hfn1 (by rw [hrf1]; simp only; omega)] at hput
  cases hput
  refine ⟨?_, hqt.clients, hqt.sums, hqt.summary⟩
  rw [ids_setClient_refs (fun r => r - 1), hqt.ids, ids_setClient_refs (fun r => r + 1), map_map]
  conv_rhs => rw [← map_id s.ids]
  apply map_congr_left
  intro p _
  by_cases hp : p.1 = fd
  · simp [hp, Prod.ext_iff]
  · simp [hp]

lemma freeClient_summary (h : s.freeClient c = some s') :
    s'.ids = s.ids.filter (fun p => decide (p.1 ≠ c.fd)) ∧
      s'.sumStatClients = s.sumStatClients - 1 ∧ s'.sums = s.sums ∧ s'.summary = s.summary := by
  have her : (s.eraseClient c.fd).ids = s.ids.filter (fun p => decide (p.1 ≠ c.fd)) := by
    simp only [ids, eraseClient, filter_map]
    rfl
  unfold freeClient at h
  split at h
  · split at h
    · cases h
    · obtain ⟨s1, hdec, rfl⟩ := Option.map_eq_some_iff.1 h
      have hqt := quiet_decJobsEta hdec
      refine ⟨hqt.ids.trans her, ?_, hqt.sums, hqt.summary⟩
      simp only [countDown, hqt.clients]
      rfl
  · cases h
    exact ⟨her, rfl, rfl, rfl⟩

def tsOf (steps : List Step) : List (Nat × Stats × GroupRunStats Count) :=
  steps.filterMap fun
    | .poll fd (.ts ts rs) => some (fd, ts, rs)
    | _ => none

def quitsOf (steps : List Step) : List Nat :=
  steps.filterMap fun
    | .poll fd .quit => some fd
    | _ => none

inductive EndMsg
  | ts | quit
  deriving DecidableEq

def endMsg (fd : Nat) : Step → Option EndMsg
  | .poll x (.ts _ _) => if x = fd then some .ts else none
  | .poll x .quit => if x = fd then some .quit else none
  | _ => none

/-- Every client sends exactly one `TS` and later `QUIT`, whatever else it sends, and no client is
    lost or dropped. -/
structure EachOnce (fds : List Nat) (steps : List Step) : Prop where
  senders : ∀ fd msg, Step.poll fd msg ∈ steps → fd ∈ fds
  connected : ∀ fd, Step.poll fd .disconnected ∉ steps
  kept : ∀ fd, Step.drop fd ∉ steps
  once : ∀ fd ∈ fds, steps.filterMap (endMsg fd) = [.ts, .quit]

def LateTs (steps : List Step) : Prop :=
  ∃ pre fd ts rs post, steps = pre ++ .poll fd (.ts ts rs) :: post ∧ quitsOf pre ≠ []

def sumAll (n : Nat) (msgs : List (Nat × Stats × GroupRunStats Count)) : ClientSums :=
  msgs.foldl (fun sums msg => handleTs sums n msg.2.1 msg.2.2) ClientSums.start

@[simp] lemma tsOf_append (p q : List Step) : tsOf (p ++ q) = tsOf p ++ tsOf q :=
  filterMap_append

@[simp] lemma quitsOf_append (p q : List Step) : quitsOf (p ++ q) = quitsOf p ++ quitsOf q :=
  filterMap_append

lemma sumAll_append (n : Nat) (msgs : List (Nat × Stats × GroupRunStats Count))
    (msg : Nat × Stats × GroupRunStats Count) :
    sumAll n (msgs ++ [msg]) = handleTs (sumAll n msgs) n msg.2.1 msg.2.2 := by
  simp [sumAll, foldl_append]

lemma not_lateTs_nil : ¬ LateTs [] := by
  rintro ⟨pre, fd, ts, rs, post, heq, -⟩
  simp at heq

lemma lateTs_append_iff (p : List Step) (st : Step) :
    LateTs (p ++ [st]) ↔ LateTs p ∨ (tsOf [st] ≠ [] ∧ quitsOf p ≠ []) := by
  constructor
  · rintro ⟨pre, fd, ts, rs, post, heq, hqt⟩
    rcases eq_nil_or_concat post with rfl | ⟨post, last, rfl⟩
    · obtain ⟨rfl, hst⟩ := append_inj' heq rfl
      refine .inr ⟨?_, hqt⟩
      rw [hst]
      simp [tsOf]
    · rw [concat_eq_append, ← cons_append, ← append_assoc] at heq
      obtain ⟨rfl, -⟩ := append_inj' heq rfl
      exact .inl ⟨pre, fd, ts, rs, post, rfl, hqt⟩
  · rintro (⟨pre, fd, ts, rs, post, rfl, hqt⟩ | ⟨hts, hqt⟩)
    · exact ⟨pre, fd, ts, rs, post ++ [st], by simp, hqt⟩
    · cases st with
      | poll fd msg =>
        cases msg with
        | ts ts rs => exact ⟨p, fd, ts, rs, [], rfl, hqt⟩
        | _ => exact absurd rfl hts
      | requestEtas => exact absurd rfl hts
      | drop fd => exact absurd rfl hts

lemma mem_quitsOf_iff : fd ∈ quitsOf steps ↔ EndMsg.quit ∈ steps.filterMap (endMsg fd) := by
  simp only [quitsOf, mem_filterMap]
  constructor
  · rintro ⟨st, hst, h⟩
    refine ⟨st, hst, ?_⟩
    split at h
    · simpa [endMsg] using h
    · cases h
  · rintro ⟨st, hst, h⟩
    refine ⟨st, hst, ?_⟩
    unfold endMsg at h
    split at h
    · split_ifs at h
      cases h
    · split_ifs at h with hfd
      simp [hfd]
    · cases h

lemma EachOnce.not_quit (h : EachOnce fds (p ++ .poll fd msg :: q))
    (hmsg : (endMsg fd (.poll fd msg)).isSome = true) : fd ∈ fds ∧ fd ∉ quitsOf p := by
  have hfd := h.senders fd msg (by simp)
  refine ⟨hfd, ?_⟩
  have hon := h.once fd hfd
  obtain ⟨m, hm⟩ := Option.isSome_iff_exists.1 hmsg
  rw [filterMap_append, filterMap_cons_some hm] at hon
  rw [mem_quitsOf_iff]
  intro hqt
  -- before a quit there is the statistics, and the message itself is a third one
  have hlen := congrArg List.length hon
  cases hp : p.filterMap (endMsg fd) with
  | nil => simp [hp] at hqt
  | cons x xs =>
    rw [hp] at hon hqt hlen
    obtain ⟨rfl, hrs⟩ := List.cons.inj hon
    cases xs with
    | nil => simp at hqt
    | cons y ys => simp at hlen

lemma count_tsOf (x : Nat) (steps : List Step) : ((tsOf steps).map Prod.fst).count x =
    (steps.filterMap (endMsg x)).count EndMsg.ts := by
  induction steps with
  | nil => rfl
  | cons st rest ih =>
    have hsp : tsOf (st :: rest) = tsOf [st] ++ tsOf rest := tsOf_append [st] rest
    have hsp' : (st :: rest).filterMap (endMsg x) =
        [st].filterMap (endMsg x) ++ rest.filterMap (endMsg x) := by
      rw [← filterMap_append, singleton_append]
    rw [hsp, hsp', map_append, count_append, count_append, ih]
    congr 1
    cases st with
    | poll fd msg =>
      cases msg with
      | ts ts rs | quit => by_cases hx : fd = x <;> simp [tsOf, endMsg, hx]
      | _ => rfl
    | requestEtas => rfl
    | drop fd => rfl

lemma EachOnce.length_tsOf (hfds : fds.Nodup) (hste : EachOnce fds steps)
    : (tsOf steps).length = fds.length := by
  have hpr : List.Perm ((tsOf steps).map Prod.fst) fds := by
    rw [perm_iff_count]
    intro x
    rw [count_tsOf]
    by_cases hx : x ∈ fds
    · rw [hste.once x hx, count_eq_one_of_mem hfds hx]
      rfl
    · rw [count_eq_zero_of_not_mem hx, count_eq_zero]
      intro hmem
      obtain ⟨st, hst, h⟩ := mem_filterMap.1 hmem
      unfold endMsg at h
      split at h
      · split_ifs at h with hfd
        exact hx (hfd ▸ hste.senders _ _ hst)
      · split_ifs at h
        cases h
      · cases h
  rw [← hpr.length_eq, length_map]

/-- What the summary is after some steps from `n` clients: who is left, how many statistics were
    added, and what was shown as long as none came late; after late ones, it is not complete. -/
structure Summing (start : List (Nat × Nat)) (p : List Step) (s : ClientPool) : Prop where
  ids : s.ids = start.filter fun x => decide (x.1 ∉ quitsOf p)
  clients : s.sumStatClients = start.length - (quitsOf p).length
  nr : s.sums.nr = s.summary.countP ClientOut.isSummed
  le : s.summary.countP ClientOut.isSummed ≤ (tsOf p).length
  exact : ¬ LateTs p → s.sums = sumAll start.length (tsOf p) ∧
    s.summary = (tsOf p).map (fun msg => .summed msg.1) ++
      if (tsOf p).length = start.length then [.allClients (sumAll start.length (tsOf p))] else []
  late : LateTs p → s.summary.countP ClientOut.isSummed < (tsOf p).length ∨
    (tsOf p).length < start.length ∨ ∀ sums, s.summary.getLast? ≠ some (.allClients sums)

lemma Summing.quiet
    (hs : Summing start p s) (h : Quiet s s') (hts : tsOf [st] = []) (hqt : quitsOf [st] = []) :
    Summing start (p ++ [st]) s' := by
  have hlat : LateTs (p ++ [st]) ↔ LateTs p := by
    rw [lateTs_append_iff, hts]
    simp
  refine ⟨?_, ?_, ?_, ?_, ?_, ?_⟩
  · rw [h.ids, hs.ids, quitsOf_append, hqt, append_nil]
  · rw [h.clients, hs.clients, quitsOf_append, hqt, append_nil]
  · rw [h.sums, h.summary, hs.nr]
  · rw [h.summary, tsOf_append, hts, append_nil]
    exact hs.le
  · rw [hlat, h.sums, h.summary, tsOf_append, hts, append_nil]
    exact hs.exact
  · rw [hlat, h.summary, tsOf_append, hts, append_nil]
    exact hs.late

lemma Summing.quit (hs : Summing start p s) (h : s.findClient fd = some c)
    (hfr : s.freeClient c = some s') :
    Summing start (p ++ [.poll fd .quit]) s' := by
  obtain ⟨hids, hcln, hsm, hsmr⟩ := freeClient_summary hfr
  have hfd := findClient_fd h
  have hts : tsOf [.poll fd .quit] = [] := rfl
  have hqt : quitsOf [.poll fd .quit] = [fd] := rfl
  have hlat : LateTs (p ++ [.poll fd .quit]) ↔ LateTs p := by
    rw [lateTs_append_iff, hts]
    simp
  refine ⟨?_, ?_, ?_, ?_, ?_, ?_⟩
  · rw [hids, hs.ids, filter_filter, quitsOf_append, hqt]
    apply filter_congr
    intro x _
    simp [hfd, and_comm]
  · rw [hcln, hs.clients, quitsOf_append, hqt, length_append, length_singleton]
    omega
  · rw [hsm, hsmr, hs.nr]
  · rw [hsmr, tsOf_append, hts, append_nil]
    exact hs.le
  · rw [hlat, hsm, hsmr, tsOf_append, hts, append_nil]
    exact hs.exact
  · rw [hlat, hsmr, tsOf_append, hts, append_nil]
    exact hs.late

lemma summary_receiveTs (ts : Stats) (rs : GroupRunStats Count) :
    (s.receiveTs fd ts rs).summary = s.summary ++
      if s.sumStatClients = 1 then []
      else .summed fd ::
        if s.sums.nr + 1 = s.sumStatClients then
          [.allClients (handleTs s.sums s.sumStatClients ts rs)] else [] := by
  simp only [summary, receiveTs, filter_append]
  congr 1
  split
  · rfl
  · split <;> simp [isSummary]

lemma countP_receiveTs (ts : Stats) (rs : GroupRunStats Count) :
    (s.receiveTs fd ts rs).summary.countP isSummed =
      s.summary.countP isSummed + if s.sumStatClients = 1 then 0 else 1 := by
  rw [summary_receiveTs, countP_append]
  congr 1
  split
  · rfl
  · split <;> rfl

lemma handleTs_nr (sums : ClientSums) (n : Nat) (ts : Stats) (rs : GroupRunStats Count) :
    (handleTs sums n ts rs).nr = if n = 1 then sums.nr else sums.nr + 1 := by
  unfold handleTs
  split <;> rfl

/-- **Statistics are added and shown by the counters**: in time they are added, and the last shows
    the sum; late ones meet a smaller count of clients. -/
lemma Summing.ts {ts : Stats} {rs : GroupRunStats Count} (h : Summing start p s)
    (hn : 2 ≤ start.length) (hrm : (tsOf p).length + 1 ≤ start.length) :
    Summing start (p ++ [.poll fd (.ts ts rs)]) (s.receiveTs fd ts rs) := by
  have hts : tsOf [.poll fd (.ts ts rs)] = [(fd, ts, rs)] := rfl
  have hqt : quitsOf [.poll fd (.ts ts rs)] = [] := rfl
  have hlat : LateTs (p ++ [.poll fd (.ts ts rs)]) ↔ LateTs p ∨ quitsOf p ≠ [] := by
    rw [lateTs_append_iff, hts]
    simp
  have hle := h.le
  have hnr := h.nr
  have hcln := h.clients
  refine ⟨?_, ?_, ?_, ?_, ?_, ?_⟩
  · rw [quitsOf_append, hqt, append_nil]
    exact h.ids
  · rw [quitsOf_append, hqt, append_nil]
    exact h.clients
  · rw [countP_receiveTs, ← hnr]
    change (handleTs s.sums s.sumStatClients ts rs).nr = _
    rw [handleTs_nr]
    split <;> rfl
  · rw [countP_receiveTs, tsOf_append, hts, length_append, length_singleton]
    split <;> omega
  · intro hnot
    rw [hlat, not_or, not_not] at hnot
    obtain ⟨hsm, hsmr⟩ := h.exact hnot.1
    have hall : s.sumStatClients = start.length := by
      rw [hcln, hnot.2]
      rfl
    rw [if_neg (by omega), append_nil] at hsmr
    have hcnt : s.sums.nr = (tsOf p).length := by
      rw [hnr, hsmr, countP_map]
      simp [Function.comp_def, isSummed]
    have hsum : handleTs s.sums s.sumStatClients ts rs =
        sumAll start.length (tsOf (p ++ [.poll fd (.ts ts rs)])) := by
      rw [tsOf_append, hts, sumAll_append, hsm, hall]
    refine ⟨hsum, ?_⟩
    rw [summary_receiveTs, hsum, hsmr, hall, hcnt, if_neg (by omega), tsOf_append, hts]
    simp
  · intro hnot
    have hqui : quitsOf p ≠ [] := by
      rcases hlat.1 hnot with hold | hnew
      · obtain ⟨pre, x, ts', rs', post, rfl, hpre⟩ := hold
        rw [quitsOf_append]
        exact append_ne_nil_of_left_ne_nil hpre _
      · exact hnew
    have hpos := length_pos_iff.2 hqui
    rw [countP_receiveTs, tsOf_append, hts, length_append, length_singleton]
    by_cases hone : s.sumStatClients = 1
    · -- not added
      refine .inl ?_
      rw [if_pos hone]
      omega
    · rw [if_neg hone]
      by_cases hsh : s.sums.nr + 1 = s.sumStatClients
      · -- shown, but some are missing or still to come
        omega
      · refine .inr (.inr ?_)
        intro sums
        rw [summary_receiveTs, if_neg hone, if_neg hsh]
        simp

lemma Summing.findClient (hs : Summing start p s) (hfd : fd ∈ start.map Prod.fst)
    (h : fd ∉ quitsOf p) : ∃ c, s.findClient fd = some c := by
  obtain ⟨x, hx, rfl⟩ := mem_map.1 hfd
  have hmem : x ∈ s.ids := by
    rw [hs.ids, mem_filter]
    exact ⟨hx, by simpa using h⟩
  obtain ⟨c, hc, rfl⟩ := mem_map.1 hmem
  have hso : (s.findClient c.fd).isSome = true := by
    rw [findClient, List.find?_isSome]
    exact ⟨c, hc, by simp⟩
  exact Option.isSome_iff_exists.1 hso

lemma Summing.refs (hs : Summing start p s) (h : ∀ x ∈ start, x.2 = 1)
    (hfn : s.findClient fd = some c) : c.refs = 1 := by
  have hmem : (c.fd, c.refs) ∈ s.ids := mem_map.2 ⟨c, findClient_mem hfn, rfl⟩
  rw [hs.ids] at hmem
  exact h _ (mem_of_mem_filter hmem)

section

variable (hs : Summing start p s) (hn : 2 ≤ start.length) (hrf : ∀ x ∈ start, x.2 = 1)
  (hfds : (start.map Prod.fst).Nodup)

include hs hn hrf hfds

lemma Summing.step (hste : EachOnce (start.map Prod.fst) (p ++ st :: q)) (hst : s.step st = some s')
    : Summing start (p ++ [st]) s' := by
  cases st with
  | requestEtas => exact hs.quiet (quiet_requestClientEtas hst) rfl rfl
  | drop fd => exact absurd (by simp) (hste.kept fd)
  | poll fd msg =>
    -- messages that are neither of the two end messages
    have hoth : (∀ s s' : ClientPool, s.handleClient fd msg = some s' → Quiet s s') →
        tsOf [.poll fd msg] = [] → quitsOf [.poll fd msg] = [] →
          Summing start (p ++ [.poll fd msg]) s' := by
      intro hqui hts hqt
      cases hfn : s.findClient fd with
      | none =>
        rw [step, pollIn, hfn] at hst
        cases hst
        exact hs.quiet (Quiet.refl s) hts hqt
      | some c =>
        exact hs.quiet (quiet_pollIn hqui hfn (hs.refs hrf hfn) hst) hts hqt
    cases msg with
    | ts ts rs =>
      obtain ⟨hfd, hqut⟩ := hste.not_quit (by simp [endMsg])
      obtain ⟨c, hfn⟩ := hs.findClient hfd hqut
      have hpl : s.pollIn fd (.ts ts rs) = some (s.receiveTs fd ts rs) :=
        pollIn_apart (g := fun s => s.receiveTs fd ts rs) (fun _ _ => rfl) (fun _ => rfl) hfn
          hfn (hs.refs hrf hfn)
      rw [step, hpl] at hst
      cases hst
      refine hs.ts hn ?_
      have hlen := hste.length_tsOf hfds
      rw [tsOf_append, length_append, length_map] at hlen
      have hcn : (tsOf (.poll fd (.ts ts rs) :: q)).length = (tsOf q).length + 1 := rfl
      omega
    | quit =>
      obtain ⟨hfd, hqut⟩ := hste.not_quit (by simp [endMsg])
      obtain ⟨c, hfn⟩ := hs.findClient hfd hqut
      rw [step, pollIn_removes (fun _ => rfl) hfn (hs.refs hrf hfn)] at hst
      exact hs.quit hfn hst
    | eta e je => exact hoth (fun _ _ h => quiet_receiveEta h) rfl rfl
    | run | start jobs | stop error =>
      refine hoth ?_ rfl rfl
      intro s s' h
      cases h
      exact quiet_setClient ⟨fun _ => rfl, fun _ => rfl⟩
    | other =>
      refine hoth ?_ rfl rfl
      intro s s' h
      cases h
      exact Quiet.refl s
    | disconnected => exact absurd (by simp) (hste.connected fd)

lemma Summing.run
    (h : EachOnce (start.map Prod.fst) (p ++ q)) (hr : s.run q = some s') :
    Summing start (p ++ q) s' := by
  induction q generalizing p s with
  | nil =>
    cases hr
    rw [append_nil]
    exact hs
  | cons st q ih =>
    obtain ⟨s1, hst, hrs⟩ := Option.bind_eq_some_iff.1 hr
    have hs1 := hs.step hn hrf hfds h hst
    rw [append_cons] at h ⊢
    exact ih hs1 h hrs

end

/-- Clients at the start of `fio_handle_clients`: several, each with its own descriptor and one
    reference. -/
structure Starting (clients : List FioClient) : Prop where
  several : 2 ≤ clients.length
  fds : (clients.map FioClient.fd).Nodup
  refs : ∀ c ∈ clients, c.refs = 1

def SummaryComplete (n : Nat) (steps : List Step) (s : ClientPool) : Prop :=
  s.summary = (tsOf steps).map (fun msg => .summed msg.1) ++ [.allClients (sumAll n (tsOf steps))]

lemma Starting.summing (hst : Starting clients) :
    Summing (startWith clients).ids [] (startWith clients) := by
  have hlen : (startWith clients).ids.length = clients.length := by simp [ids, startWith]
  refine ⟨?_, ?_, rfl, le_rfl, ?_, fun h => absurd h not_lateTs_nil⟩
  · simp [quitsOf]
  · rw [hlen]
    rfl
  · intro _
    refine ⟨rfl, ?_⟩
    have hne : (tsOf []).length ≠ (startWith clients).ids.length := by
      rw [hlen]
      have hsvr := hst.several
      simp only [tsOf, filterMap_nil, length_nil]
      omega
    rw [if_neg hne]
    rfl

section

variable (h : Starting clients) (hst : EachOnce (clients.map FioClient.fd) steps)
  (hr : (startWith clients).run steps = some s)

include h hst hr

lemma Starting.summing_run :
    Summing (startWith clients).ids steps s ∧ (tsOf steps).length = (startWith clients).ids.length := by
  have hlen : (startWith clients).ids.length = clients.length := by simp [ids, startWith]
  have hfst : (startWith clients).ids.map Prod.fst = clients.map FioClient.fd := by
    simp [ids, startWith, Function.comp_def]
  have hrf : ∀ x ∈ (startWith clients).ids, x.2 = 1 := by
    intro x hx
    obtain ⟨c, hc, rfl⟩ := mem_map.1 hx
    exact h.refs c hc
  rw [← hfst] at hst
  refine ⟨h.summing.run (by rw [hlen]; exact h.several) hrf (hfst ▸ h.fds) hst hr, ?_⟩
  rw [hst.length_tsOf (hfst ▸ h.fds), length_map]

lemma Starting.not_complete_of_late (hlat : LateTs steps) :
    ¬ SummaryComplete clients.length steps s := by
  obtain ⟨hsum, hlen⟩ := h.summing_run hst hr
  intro hcmp
  have hcnt : s.summary.countP isSummed = (tsOf steps).length := by
    rw [hcmp, countP_append, countP_map]
    simp [Function.comp_def, isSummed]
  rcases hsum.late hlat with hmsn | hmr | hla
  · omega
  · omega
  · refine hla (sumAll clients.length (tsOf steps)) ?_
    rw [hcmp, List.getLast?_append]
    rfl

end

/-- **The summary is complete and shown once exactly if no client quits before the last statistics
    have come**: `sum_stat_clients` shrinks with every client that goes. -/
theorem summaryComplete_iff {clients : List FioClient} {steps : List Step} {s : ClientPool}
    (hstart : Starting clients) (hsteps : EachOnce (clients.map FioClient.fd) steps)
    (hrun : (startWith clients).run steps = some s) :
    SummaryComplete clients.length steps s ↔ ¬ LateTs steps := by
  constructor
  · intro hcmp hlat
    exact hstart.not_complete_of_late hsteps hrun hlat hcmp
  · intro hnot
    obtain ⟨hsum, hlen⟩ := hstart.summing_run hsteps hrun
    obtain ⟨-, hsmr⟩ := hsum.exact hnot
    have hids : (startWith clients).ids.length = clients.length := by simp [ClientPool.ids, startWith]
    rw [if_pos hlen, hids] at hsmr
    exact hsmr

def sendsTs (fd : Nat) : Step := .poll fd (.ts initThreadStat initGroupRunStat)

theorem summaryComplete_in_time :
    ∃ s, (startWith [jobClient 3 .running, jobClient 4 .running]).run
        [sendsTs 3, sendsTs 4, .poll 3 .quit, .poll 4 .quit] = some s ∧
      SummaryComplete 2 [sendsTs 3, sendsTs 4, .poll 3 .quit, .poll 4 .quit] s := by
  have hst : Starting [jobClient 3 .running, jobClient 4 .running] :=
    ⟨by decide, by decide, by decide⟩
  have hste : EachOnce [3, 4] [sendsTs 3, sendsTs 4, .poll 3 .quit, .poll 4 .quit] := by
    refine ⟨?_, by simp [sendsTs], by simp [sendsTs], by decide⟩
    intro fd msg h
    simp [sendsTs, Step.poll.injEq] at h
    rcases h with ⟨rfl, -⟩ | ⟨rfl, -⟩ | ⟨rfl, -⟩ | ⟨rfl, -⟩ <;> decide
  have hnot : ¬ LateTs ([] ++ [sendsTs 3] ++ [sendsTs 4] ++ [.poll 3 .quit] ++ [.poll 4 .quit]) := by
    simp only [lateTs_append_iff]
    simp [not_lateTs_nil, tsOf, quitsOf, sendsTs]
  exact ⟨_, rfl, (summaryComplete_iff hst hste rfl).2 hnot⟩

/-- Of two clients the first quits before the second sends its statistics: those are not added, and
    the sum is not shown. -/
theorem summary_lost_after_quit :
    EachOnce [3, 4] [sendsTs 3, .poll 3 .quit, sendsTs 4, .poll 4 .quit] ∧
      ∃ s, (startWith [jobClient 3 .running, jobClient 4 .running]).run
          [sendsTs 3, .poll 3 .quit, sendsTs 4, .poll 4 .quit] = some s ∧
        s.summary = [.summed 3] ∧
          ¬ SummaryComplete 2 [sendsTs 3, .poll 3 .quit, sendsTs 4, .poll 4 .quit] s := by
  refine ⟨⟨?_, by simp [sendsTs], by simp [sendsTs], by decide⟩, _, rfl, rfl, ?_⟩
  · intro fd msg h
    simp [sendsTs, Step.poll.injEq] at h
    rcases h with ⟨rfl, -⟩ | ⟨rfl, -⟩ | ⟨rfl, -⟩ | ⟨rfl, -⟩ <;> decide
  · intro hcmp
    have hlen := congrArg List.length hcmp
    cases hlen

end ClientPool

end FioSsd
