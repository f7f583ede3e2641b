import FioSsd.Net.Clients

/-! # Status requests and who still owes an answer

`request_client_etas` allocates a `client_eta` whose `pending` is the number of clients, and takes
one off for every client that still owes an older answer. -/

namespace FioSsd

variable {eta : ClientEta} {f : FioClient → FioClient} {cs : List FioClient}

open List FioClient

open Function (update update_self update_of_ne)

def FioClient.owes (e : Nat) (c : FioClient) : Bool := decide (c.etaInFlight = some e)

/-- Between two steps, a client holds one reference, is on `eta_list` exactly if a request is in
    flight, and has that request in its command list. -/
structure FioClient.Settled (c : FioClient) : Prop where
  refs : c.refs = 1
  listed : c.etaListed = c.etaInFlight.isSome
  cmds : c.cmdList = c.etaInFlight.toList

def ClientOut.isEta (e : Nat) : ClientOut → Bool
  | .etaStatus x _ => decide (x = e)
  | _ => false

section

variable {fd : Nat} {c : FioClient} (hfds : (cs.map FioClient.fd).Nodup)
  (hfn : (cs.find? fun c => decide (c.fd = fd)) = some c)

include hfds hfn

lemma countP_change
    (f : FioClient → FioClient) (p : FioClient → Bool) :
    (cs.map fun x => if x.fd = fd then f x else x).countP p + (if p c then 1 else 0) =
      cs.countP p + if p (f c) then 1 else 0 := by
  induction cs with
  | nil => simp at hfn
  | cons x xs ih =>
    obtain ⟨hx, hxs⟩ := nodup_cons.1 hfds
    rw [map_cons, countP_cons, countP_cons]
    by_cases hfd : x.fd = fd
    · -- the client itself; no other one has its descriptor
      have hc : x = c := by simpa [hfd] using hfn
      subst hc
      have hrs : (xs.map fun y => if y.fd = fd then f y else y) = xs := by
        conv_rhs => rw [← map_id xs]
        apply map_congr_left
        intro y hy
        have hne : y.fd ≠ fd := fun h => hx (mem_map.2 ⟨y, hy, h.trans hfd.symm⟩)
        simp [hne]
      rw [hrs, if_pos hfd]
      omega
    · have htl := ih hxs (by simpa [hfd] using hfn)
      rw [if_neg hfd]
      omega

lemma countP_erase_fd
    (p : FioClient → Bool) :
    (cs.filter fun x => decide (x.fd ≠ fd)).countP p + (if p c then 1 else 0) = cs.countP p := by
  induction cs with
  | nil => simp at hfn
  | cons x xs ih =>
    obtain ⟨hx, hxs⟩ := nodup_cons.1 hfds
    rw [countP_cons]
    by_cases hfd : x.fd = fd
    · have hc : x = c := by simpa [hfd] using hfn
      subst hc
      have hrs : (xs.filter fun y => decide (y.fd ≠ fd)) = xs := by
        apply filter_eq_self.2
        intro y hy
        have hne : y.fd ≠ fd := fun h => hx (mem_map.2 ⟨y, hy, h.trans hfd.symm⟩)
        simpa using hne
      rw [filter_cons_of_neg (by simpa using hfd), hrs]
    · have htl := ih hxs (by simpa [hfd] using hfn)
      rw [filter_cons_of_pos (by simpa using hfd), countP_cons]
      omega

end

namespace ClientPool

variable (s : ClientPool)

def pendingOf (e : Nat) : Nat := ((s.etas e).map ClientEta.pending).getD 0

/-- The number of clients whose `eta_in_flight` points to a request. -/
def owing (e : Nat) : Nat := s.clients.countP (FioClient.owes e)

def timesShown (e : Nat) : Nat := s.out.countP (ClientOut.isEta e)

structure EtasLive (s : ClientPool) : Prop where
  live : ∀ e eta, s.etas e = some eta → 0 < eta.pending
  fresh : ∀ e, s.nextEta ≤ e → s.etas e = none
  shown : ∀ e, s.timesShown e = if e < s.nextEta ∧ s.etas e = none then 1 else 0

structure EtasCounted (s : ClientPool) : Prop extends EtasLive s where
  fds : (s.clients.map FioClient.fd).Nodup
  settled : ∀ c ∈ s.clients, c.Settled
  nr : s.nrClients = s.clients.length
  counted : ∀ e, s.pendingOf e = s.owing e

structure SameClients (s s' : ClientPool) : Prop where
  clients : s'.clients = s.clients
  nr : s'.nrClients = s.nrClients
  next : s'.nextEta = s.nextEta

variable {s s' s'' : ClientPool} {fd e : Nat} {c : FioClient}

lemma SameClients.trans (h : SameClients s s') (h' : SameClients s' s'') : SameClients s s'' :=
  ⟨h'.clients.trans h.clients, h'.nr.trans h.nr, h'.next.trans h.next⟩

lemma pendingOf_some (h : s.etas e = some eta) : s.pendingOf e = eta.pending := by
  simp [pendingOf, h]

lemma pendingOf_none (h : s.etas e = none) : s.pendingOf e = 0 := by
  simp [pendingOf, h]

lemma exists_eta_of_pending (h : 0 < s.pendingOf e) :
    ∃ eta, s.etas e = some eta ∧ eta.pending = s.pendingOf e := by
  cases heta : s.etas e with
  | none =>
    rw [pendingOf_none heta] at h
    omega
  | some eta => exact ⟨eta, rfl, (pendingOf_some heta).symm⟩

lemma EtasLive.lt_next (hs : EtasLive s) (h : s.etas e = some eta) : e < s.nextEta := by
  by_contra hge
  rw [hs.fresh e (by omega)] at h
  cases h

variable {out : List ClientOut}

lemma EtasLive.of_update {v : Option ClientEta} (hs : EtasLive s) (h : s.etas e = some eta)
    (hpos : ∀ eta', v = some eta' → 0 < eta'.pending) (hsh : ∀ x, out.countP (ClientOut.isEta x) =
      if x < s.nextEta ∧ update s.etas e v x = none then 1 else 0) :
    EtasLive { s with etas := update s.etas e v, out := out } := by
  refine ⟨?_, ?_, hsh⟩
  · intro x eta1 hx
    by_cases hxe : x = e
    · simp [hxe] at hx
      exact hpos eta1 hx
    · simp only [update_of_ne hxe] at hx
      exact hs.live x eta1 hx
  · intro x hx
    have hold := hs.lt_next h
    have hxe : x ≠ e := by
      simp only at hx
      omega
    simp only [update_of_ne hxe]
    exact hs.fresh x hx

lemma EtasLive.replace {eta' : ClientEta} (hs : EtasLive s) (h : s.etas e = some eta)
    (hpos : 0 < eta'.pending) : EtasLive { s with etas := update s.etas e (some eta') } := by
  refine hs.of_update h (fun _ hx => Option.some.inj hx ▸ hpos) fun x => ?_
  have hpre := hs.shown x
  by_cases hxe : x = e
  · subst hxe
    simpa [timesShown, h] using hpre
  · simpa [timesShown, update_of_ne hxe] using hpre

lemma EtasLive.free (hs : EtasLive s) (h : s.etas e = some eta) (je : JobsEta Word) :
    EtasLive { s with etas := update s.etas e none, out := s.out ++ [.etaStatus e je] } := by
  refine hs.of_update h (by simp) fun x => ?_
  have hpre := hs.shown x
  rw [timesShown] at hpre
  rw [countP_append, hpre]
  by_cases hxe : x = e
  · subst hxe
    simp [h, ClientOut.isEta, hs.lt_next h]
  · simp [ClientOut.isEta, update_of_ne hxe, Ne.symm hxe]

lemma pendingOf_update (v : Option ClientEta) (x : Nat) :
    pendingOf { s with etas := update s.etas e v, out := out } x =
      if x = e then (v.map ClientEta.pending).getD 0 else s.pendingOf x := by
  by_cases hxe : x = e
  all_goals simp [pendingOf, hxe]

lemma decJobsEta_spec (hs : EtasLive s) (h : 0 < s.pendingOf e) :
    ∃ s', s.decJobsEta e = some s' ∧ EtasLive s' ∧ SameClients s s' ∧
      ∀ x, s'.pendingOf x = s.pendingOf x - if x = e then 1 else 0 := by
  obtain ⟨eta, heta, hp⟩ := exists_eta_of_pending h
  rw [decJobsEta, heta]
  simp only
  split_ifs with hla
  · refine ⟨_, rfl, hs.free heta _, ⟨rfl, rfl, rfl⟩, ?_⟩
    intro x
    rw [pendingOf_update]
    by_cases hxe : x = e
    · rw [if_pos hxe, if_pos hxe, hxe, ← hp]
      simpa using hla.symm
    · simp [hxe]
  · refine ⟨_, rfl, hs.replace heta (by simp only; omega), ⟨rfl, rfl, rfl⟩, ?_⟩
    intro x
    rw [pendingOf_update]
    by_cases hxe : x = e
    · rw [if_pos hxe, if_pos hxe, hxe, ← hp]
      rfl
    · simp [hxe]

lemma decSkipped_spec {n : Nat} (h : EtasLive s) (hn : n ≤ s.pendingOf e) :
    ∃ s', decSkipped e n s = some s' ∧ EtasLive s' ∧ SameClients s s' ∧
      ∀ x, s'.pendingOf x = s.pendingOf x - if x = e then n else 0 := by
  induction n generalizing s with
  | zero => exact ⟨s, rfl, h, ⟨rfl, rfl, rfl⟩, fun x => by simp⟩
  | succ n ih =>
    obtain ⟨s1, hdec, hlv1, heq1, hpn1⟩ := decJobsEta_spec h (show 0 < s.pendingOf e by omega)
    have hrm : n ≤ s1.pendingOf e := by
      rw [hpn1, if_pos rfl]
      omega
    obtain ⟨s2, hrs, hlv2, heq2, hpn2⟩ := ih hlv1 hrm
    refine ⟨s2, ?_, hlv2, heq1.trans heq2, ?_⟩
    · rw [decSkipped, hdec, Option.bind_some, hrs]
    · intro x
      rw [hpn2, hpn1]
      split <;> omega

lemma addEta_spec (hs : EtasLive s) (h : 0 < s.pendingOf e) (je : JobsEta Word) :
    ∃ s', s.addEta e je = some s' ∧ EtasLive s' ∧ SameClients s s' ∧
      ∀ x, s'.pendingOf x = s.pendingOf x := by
  obtain ⟨eta, heta, hp⟩ := exists_eta_of_pending h
  rw [addEta, heta]
  refine ⟨_, rfl, hs.replace heta (hs.live e eta heta), ⟨rfl, rfl, rfl⟩, ?_⟩
  intro x
  rw [pendingOf_update]
  by_cases hxe : x = e
  · rw [if_pos hxe, hxe, ← hp]
    rfl
  · rw [if_neg hxe]

lemma EtasLive.of_same (hs : EtasLive s) (h : s'.etas = s.etas) (hnx : s'.nextEta = s.nextEta)
    (hout : s'.out = s.out) : EtasLive s' := by
  refine ⟨?_, ?_, ?_⟩
  · intro x eta hx
    exact hs.live x eta (h ▸ hx)
  · intro x hx
    rw [h]
    exact hs.fresh x (hnx ▸ hx)
  · intro x
    rw [timesShown, hout, hnx, h]
    exact hs.shown x

@[simp] lemma pendingOf_setClient (f : FioClient → FioClient) (x : Nat) :
    (s.setClient fd f).pendingOf x = s.pendingOf x := rfl

@[simp] lemma pendingOf_eraseClient (x : Nat) : (s.eraseClient fd).pendingOf x = s.pendingOf x := rfl

@[simp] lemma pendingOf_countDown (x : Nat) : s.countDown.pendingOf x = s.pendingOf x := rfl

@[simp] lemma owing_countDown (x : Nat) : s.countDown.owing x = s.owing x := rfl

structure KeepsEta (f : FioClient → FioClient) : Prop extends Keeps f where
  listed : ∀ c, (f c).etaListed = c.etaListed
  inFlight : ∀ c, (f c).etaInFlight = c.etaInFlight
  cmds : ∀ c, (f c).cmdList = c.cmdList

lemma setClient_fds (h : ∀ c, (f c).fd = c.fd) :
    (s.setClient fd f).clients.map FioClient.fd = s.clients.map FioClient.fd := by
  simp only [setClient, map_map]
  apply map_congr_left
  intro x _
  by_cases hx : x.fd = fd
  · simp [hx, h]
  · simp [hx]

lemma mem_setClient {x : FioClient} (h : x ∈ (s.setClient fd f).clients)
    : x ∈ s.clients ∨ ∃ y ∈ s.clients, y.fd = fd ∧ x = f y := by
  obtain ⟨y, hy, rfl⟩ := mem_map.1 h
  by_cases hfd : y.fd = fd
  · exact .inr ⟨y, hy, hfd, if_pos hfd⟩
  · rw [if_neg hfd]
    exact .inl hy

lemma EtasCounted.setClient (hs : EtasCounted s) (h : KeepsEta f) :
    EtasCounted (s.setClient fd f) := by
  refine ⟨hs.toEtasLive.of_same rfl rfl rfl, ?_, ?_, ?_, ?_⟩
  · rw [setClient_fds h.fd]
    exact hs.fds
  · intro x hx
    rcases mem_setClient hx with hold | ⟨y, hy, -, rfl⟩
    · exact hs.settled x hold
    · have hset := hs.settled y hy
      refine ⟨?_, ?_, ?_⟩
      · rw [h.refs, hset.refs]
      · rw [h.listed, h.inFlight, hset.listed]
      · rw [h.cmds, h.inFlight, hset.cmds]
  · simpa [ClientPool.setClient] using hs.nr
  · intro x
    rw [pendingOf_setClient, hs.counted, owing, owing, ClientPool.setClient, countP_map]
    apply countP_congr
    intro y _
    by_cases hy : y.fd = fd
    · simp [hy, FioClient.owes, h.inFlight]
    · simp [hy]

lemma EtasCounted.settled_of_find (hs : EtasCounted s) (h : s.findClient fd = some c) : c.Settled :=
  hs.settled c (findClient_mem h)

lemma EtasCounted.pending_pos (h : EtasCounted s) (hc : c ∈ s.clients) (he : c.etaInFlight = some e)
    : 0 < s.pendingOf e := by
  rw [h.counted]
  exact countP_pos_iff.2 ⟨c, hc, by simpa [owes] using he⟩

lemma EtasCounted.freeClient (hs : EtasCounted s) (h : s.findClient fd = some c) :
    ∃ s', s.freeClient c = some s' ∧ EtasCounted s' := by
  have hset := hs.settled_of_find h
  obtain rfl := findClient_fd h
  -- what is left of the list, whatever happens to the requests
  have hfds : ((s.clients.filter fun x => decide (x.fd ≠ c.fd)).map fd).Nodup :=
    hs.fds.sublist (filter_sublist.map _)
  have hstl : ∀ x ∈ s.clients.filter (fun x => decide (x.fd ≠ c.fd)), x.Settled := fun x hx =>
    hs.settled x (mem_of_mem_filter hx)
  have hnr : s.nrClients - 1 = (s.clients.filter fun x => decide (x.fd ≠ c.fd)).length := by
    have hcnt := countP_erase_fd hs.fds h (fun _ => true)
    simp only [countP_true, if_true] at hcnt
    have hlen := hs.nr
    omega
  have howi : ∀ x, (s.clients.filter fun x => decide (x.fd ≠ c.fd)).countP (owes x) +
      (if owes x c then 1 else 0) = s.owing x := fun x => countP_erase_fd hs.fds h _
  unfold ClientPool.freeClient
  cases hflg : c.etaInFlight with
  | none =>
    have hlst : c.etaListed = false := by
      rw [hset.listed, hflg]
      rfl
    rw [if_neg (by simp [hlst])]
    refine ⟨_, rfl, ⟨hs.toEtasLive.of_same rfl rfl rfl, hfds, hstl, hnr, ?_⟩⟩
    intro x
    have hx := howi x
    rw [pendingOf_countDown, pendingOf_eraseClient, hs.counted, ← hx]
    simp [owes, hflg, owing, countDown, eraseClient]
  | some e =>
    have hlst : c.etaListed = true := by
      rw [hset.listed, hflg]
      rfl
    rw [if_pos hlst]
    have hpos : 0 < (s.eraseClient c.fd).pendingOf e := by
      rw [pendingOf_eraseClient]
      exact hs.pending_pos (findClient_mem h) hflg
    have hers : EtasLive (s.eraseClient c.fd) := hs.toEtasLive.of_same rfl rfl rfl
    obtain ⟨s', hdec, hlv, heq, hpn⟩ := decJobsEta_spec hers hpos
    refine ⟨s'.countDown, by simp only [hdec, Option.map_some],
      ⟨hlv.of_same rfl rfl rfl, ?_, ?_, ?_, ?_⟩⟩
    · rw [show s'.countDown.clients = s'.clients from rfl, heq.clients]
      exact hfds
    · rw [show s'.countDown.clients = s'.clients from rfl, heq.clients]
      exact hstl
    · rw [show s'.countDown.clients = s'.clients from rfl, heq.clients,
        show s'.countDown.nrClients = s'.nrClients - 1 from rfl, heq.nr]
      exact hnr
    · intro x
      have hx := howi x
      rw [pendingOf_countDown, hpn, pendingOf_eraseClient, hs.counted, ← hx, owing_countDown, owing,
        heq.clients]
      by_cases hxe : x = e
      · subst hxe
        simp [owes, hflg, eraseClient]
      · simp [owes, hflg, eraseClient, hxe, Ne.symm hxe]

def answered (e : Nat) (c : FioClient) : FioClient :=
  { c with cmdList := c.cmdList.erase e, etaInFlight := none, etaListed := false }

def answeredHeld (e : Nat) (c : FioClient) : FioClient := answered e { c with refs := c.refs + 1 }

lemma pollIn_eta_spec (hs : EtasLive s) (h : s.findClient fd = some c) (hrf : c.refs = 1)
    (he : e ∈ c.cmdList) (hflg : c.etaInFlight = some e) (hpos : 0 < s.pendingOf e)
    (je : JobsEta Word) :
    ∃ s', s.pollIn fd (.eta e je) = some s' ∧ EtasLive s' ∧
      s'.clients = (s.setClient fd (answered e)).clients ∧ s'.nrClients = s.nrClients ∧
      ∀ x, s'.pendingOf x = s.pendingOf x - if x = e then 1 else 0 := by
  -- the handler's state: the client is held and has answered
  have hhl := findClient_held h
  have hlvh : EtasLive (s.setClient fd (answeredHeld e)) := hs.of_same rfl rfl rfl
  obtain ⟨s1, hadd, hlv1, heq1, hpn1⟩ := addEta_spec (e := e) hlvh hpos je
  obtain ⟨s2, hdec, hlv2, heq2, hpn2⟩ := decJobsEta_spec (e := e) hlv1 (by
    rw [hpn1]
    exact hpos)
  have hcln := heq2.clients.trans heq1.clients
  have hhnd : (s.setClient fd fun c => { c with refs := c.refs + 1 }).handleClient fd (.eta e je) =
      some s2 := by
    simp only [handleClient, receiveEta, hhl]
    rw [if_neg (by simpa using he), if_neg (by simpa using hflg), setClient_setClient (by simp)]
    change ((s.setClient fd (answeredHeld e)).addEta e je).bind (fun s => s.decJobsEta e) = some s2
    rw [hadd, Option.bind_some, hdec]
  have hfn2 : s2.findClient fd = some (answeredHeld e c) := by
    have hfn : (s.setClient fd (answeredHeld e)).findClient fd = some (answeredHeld e c) := by
      rw [findClient_setClient (f := answeredHeld e) (fun _ => rfl), h, Option.map_some]
    rw [findClient, hcln]
    exact hfn
  refine ⟨s2.setClient fd fun c => { c with refs := c.refs - 1 }, ?_, hlv2.of_same rfl rfl rfl, ?_,
    heq2.nr.trans heq1.nr, ?_⟩
  · rw [pollIn, h]
    simp only [hhnd, Option.bind_some]
    exact removeClient_of_two_le hfn2 (by
      simp only [answeredHeld, answered]
      omega)
  · -- dropping the reference leaves the client as it was but for its answer
    have htw : ((s.setClient fd (answeredHeld e)).setClient fd fun c =>
        { c with refs := c.refs - 1 }) = s.setClient fd (answered e) :=
      setClient_setClient (f := answeredHeld e) (fun _ => rfl)
    calc (s2.setClient fd fun c => { c with refs := c.refs - 1 }).clients
        = ((s.setClient fd (answeredHeld e)).setClient fd fun c =>
            { c with refs := c.refs - 1 }).clients := by
          simp only [ClientPool.setClient] at hcln ⊢
          rw [hcln]
      _ = (s.setClient fd (answered e)).clients := congrArg ClientPool.clients htw
  · intro x
    rw [pendingOf_setClient, hpn2, hpn1, pendingOf_setClient]

lemma EtasCounted.pollIn_eta (hs : EtasCounted s) (h : s.findClient fd = some c)
    (he : e ∈ c.cmdList) (je : JobsEta Word) :
    ∃ s', s.pollIn fd (.eta e je) = some s' ∧ EtasCounted s' := by
  have hset := hs.settled_of_find h
  have hflg : c.etaInFlight = some e := by
    rw [hset.cmds] at he
    simpa using he
  have hpos := hs.pending_pos (findClient_mem h) hflg
  obtain ⟨s', hpl, hlv, hcln, hnr, hpnd⟩ :=
    pollIn_eta_spec hs.toEtasLive h hset.refs he hflg hpos je
  refine ⟨s', hpl, hlv, ?_, ?_, ?_, ?_⟩
  · rw [hcln, setClient_fds (f := answered e) (fun _ => rfl)]
    exact hs.fds
  · intro x hx
    rw [hcln] at hx
    rcases mem_setClient hx with hold | ⟨y, hy, hyfd, rfl⟩
    · exact hs.settled x hold
    · -- the only client of this descriptor is the one that answered
      have hyc := inj_on_of_nodup_map hs.fds hy (findClient_mem h)
        (hyfd.trans (findClient_fd h).symm)
      subst hyc
      refine ⟨hset.refs, rfl, ?_⟩
      simp [answered, hset.cmds, hflg]
  · rw [hcln, hnr]
    simpa [ClientPool.setClient] using hs.nr
  · intro x
    have hcnt := countP_change hs.fds h (answered e) (FioClient.owes x)
    rw [hpnd, hs.counted, owing, owing, hcln, ClientPool.setClient]
    by_cases hxe : x = e
    · subst hxe
      simp [FioClient.owes, hflg, answered] at hcnt ⊢
      omega
    · simp [FioClient.owes, hflg, answered, Ne.symm hxe, hxe] at hcnt ⊢
      omega

def AllAsked (s : ClientPool) : Prop :=
  ∀ c ∈ s.clients, c.etaListed = true ∨ c.state = .running

lemma requestLoop_spec (hset : ∀ c ∈ cs, c.Settled)
    (h : ∀ c ∈ cs, c.etaListed = true ∨ c.state = .running)
    (hnew : ∀ c ∈ cs, c.etaInFlight ≠ some e) :
    ∃ cs' skipped, requestLoop e cs = some (cs', skipped) ∧
      cs'.map FioClient.fd = cs.map FioClient.fd ∧ (∀ c ∈ cs', c.Settled) ∧
      skipped + cs'.countP (FioClient.owes e) = cs.length ∧
      ∀ x, x ≠ e → cs'.countP (FioClient.owes x) = cs.countP (FioClient.owes x) := by
  induction cs with
  | nil => exact ⟨[], 0, rfl, rfl, by simp, rfl, by simp⟩
  | cons c cs ih =>
    obtain ⟨cs', skipped, hlp, hfds, hst', hcnt, hoth⟩ :=
      ih (fun x hx => hset x (.tail _ hx))
        (fun x hx => h x (.tail _ hx))
        (fun x hx => hnew x (.tail _ hx))
    have hc := hset c (.head _)
    rw [requestLoop, hlp, Option.bind_some]
    by_cases hlst : c.etaListed = true
    · -- an older answer is due
      have howe : FioClient.owes e c = false := by
        simpa [FioClient.owes] using hnew c (.head _)
      refine ⟨c :: cs', skipped + 1, by simp [hlst], by simp [hfds], ?_, ?_, ?_⟩
      · exact forall_mem_cons.2 ⟨hc, hst'⟩
      · rw [countP_cons, howe, length_cons]
        simp only [Bool.false_eq_true, if_false]
        omega
      · intro x hx
        rw [countP_cons, countP_cons, hoth x hx]
    · have hrng := (h c (.head _)).resolve_left hlst
      have hflg : c.etaInFlight = none := by
        have hnot := hc.listed
        rw [eq_false_of_ne_true hlst] at hnot
        simpa using hnot.symm
      refine ⟨{ c with etaListed := true, etaInFlight := some e, cmdList := c.cmdList ++ [e] } :: cs',
        skipped, by simp [hlst, hrng, hflg], by simp [hfds], ?_, ?_, ?_⟩
      · refine forall_mem_cons.2 ⟨⟨hc.refs, rfl, ?_⟩, hst'⟩
        simp [hc.cmds, hflg]
      · rw [countP_cons, length_cons]
        simp only [FioClient.owes, decide_true, if_true]
        omega
      · intro x hx
        rw [countP_cons, countP_cons, hoth x hx]
        simp [FioClient.owes, hflg, Ne.symm hx]

lemma EtasLive.allocate (h : EtasLive s) (hnr : 0 < s.nrClients) (clients : List FioClient) :
    EtasLive { s with
      clients := clients, nextEta := s.nextEta + 1
      etas := update s.etas s.nextEta (some ⟨JobsEta.zero, s.nrClients⟩) } := by
  refine ⟨?_, ?_, ?_⟩
  · intro x eta hx
    by_cases hxe : x = s.nextEta
    · simp [hxe] at hx
      rw [← hx]
      exact hnr
    · simp only [update_of_ne hxe] at hx
      exact h.live x eta hx
  · intro x hx
    have hle : s.nextEta + 1 ≤ x := hx
    simp only [update_of_ne (show x ≠ s.nextEta by omega)]
    exact h.fresh x (by omega)
  · intro x
    have hpre := h.shown x
    by_cases hxe : x = s.nextEta
    · subst hxe
      simpa [timesShown] using hpre
    · have hlt : x < s.nextEta + 1 ↔ x < s.nextEta := by omega
      simpa [timesShown, update_of_ne hxe, hlt] using hpre

lemma EtasCounted.requestClientEtas (hs : EtasCounted s) (hnr : 0 < s.nrClients) (h : s.AllAsked)
    : ∃ s', s.requestClientEtas = some s' ∧ EtasCounted s' := by
  have hnew : ∀ c ∈ s.clients, c.etaInFlight ≠ some s.nextEta := by
    intro c hc he
    have hpos := hs.pending_pos hc he
    rw [pendingOf_none (hs.fresh _ le_rfl)] at hpos
    omega
  obtain ⟨cs', skipped, hlp, hfds, hset, hcnt, hoth⟩ := requestLoop_spec hs.settled h hnew
  have hlv := hs.toEtasLive.allocate hnr cs'
  have hlen := hs.nr
  obtain ⟨s', hdec, hlv', heq, hpn⟩ := decSkipped_spec (e := s.nextEta) (n := skipped) hlv (by
    simp only [pendingOf, update_self, Option.map_some, Option.getD_some]
    omega)
  have hr : s.requestClientEtas = some s' := by
    rw [ClientPool.requestClientEtas, hlp]
    exact hdec
  refine ⟨s', hr, ⟨hlv', ?_, ?_, ?_, ?_⟩⟩
  · rw [heq.clients]
    simpa [hfds] using hs.fds
  · rw [heq.clients]
    exact hset
  · rw [heq.nr, heq.clients, hlen, ← length_map FioClient.fd, ← hfds, length_map]
  · intro x
    rw [hpn, owing, heq.clients]
    by_cases hxe : x = s.nextEta
    · subst hxe
      simp only [pendingOf, update_self, Option.map_some, Option.getD_some, if_true]
      omega
    · rw [if_neg hxe, Nat.sub_zero, hoth x hxe]
      have hold := hs.counted x
      simpa [pendingOf, update_of_ne hxe, owing] using hold

def Admits (s : ClientPool) : Step → Prop
  | .poll fd (.eta e _) => ∀ c, s.findClient fd = some c → e ∈ c.cmdList
  | .poll _ _ => True
  | .requestEtas => 0 < s.nrClients
  | .drop fd => (s.findClient fd).isSome = true

lemma EtasCounted.receiveTs (h : EtasCounted s) (ts : Stats) (rs : GroupRunStats Count) :
    EtasCounted (s.receiveTs fd ts rs) := by
  have hsh : ∀ x, (s.receiveTs fd ts rs).timesShown x = s.timesShown x := by
    intro x
    simp only [timesShown, ClientPool.receiveTs, countP_append]
    split
    · simp
    · split <;> simp [ClientOut.isEta]
  refine ⟨⟨h.live, h.fresh, ?_⟩, h.fds, h.settled, h.nr, h.counted⟩
  intro x
  rw [hsh]
  exact h.shown x

lemma EtasCounted.pollIn {msg : ClientMsg} (hs : EtasCounted s) (hadm : s.Admits (.poll fd msg)) :
    ∃ s', s.pollIn fd msg = some s' ∧ EtasCounted s' := by
  cases h : s.findClient fd with
  | none => exact ⟨s, by rw [ClientPool.pollIn, h], hs⟩
  | some c =>
    have hrf := (hs.settled_of_find h).refs
    cases msg with
    | quit | disconnected =>
      rw [pollIn_removes (fun _ => rfl) h hrf]
      exact hs.freeClient h
    | ts ts rs =>
      have hpl : s.pollIn fd (.ts ts rs) = some (s.receiveTs fd ts rs) :=
        pollIn_apart (g := fun s => s.receiveTs fd ts rs) (fun _ _ => rfl) (fun _ => rfl) h h hrf
      exact ⟨_, hpl, hs.receiveTs ts rs⟩
    | eta e je => exact hs.pollIn_eta h (hadm c h) je
    | run =>
      refine ⟨_, pollIn_setClient (f := fun c => { c with state := .running })
        ⟨fun _ => rfl, fun _ => rfl⟩ (fun _ => rfl) (fun _ => rfl) h hrf, ?_⟩
      exact hs.setClient ⟨⟨fun _ => rfl, fun _ => rfl⟩, fun _ => rfl, fun _ => rfl, fun _ => rfl⟩
    | start jobs =>
      refine ⟨_, pollIn_setClient (f := fun c => { c with state := .started, jobs := jobs })
        ⟨fun _ => rfl, fun _ => rfl⟩ (fun _ => rfl) (fun _ => rfl) h hrf, ?_⟩
      exact hs.setClient ⟨⟨fun _ => rfl, fun _ => rfl⟩, fun _ => rfl, fun _ => rfl, fun _ => rfl⟩
    | stop error =>
      refine ⟨_, pollIn_setClient (f := fun c => { c with state := .stopped, error := error })
        ⟨fun _ => rfl, fun _ => rfl⟩ (fun _ => rfl) (fun _ => rfl) h hrf, ?_⟩
      exact hs.setClient ⟨⟨fun _ => rfl, fun _ => rfl⟩, fun _ => rfl, fun _ => rfl, fun _ => rfl⟩
    | other =>
      have hpl : s.pollIn fd .other = some s :=
        pollIn_apart (g := id) (fun _ _ => rfl) (fun _ => rfl) h h hrf
      exact ⟨_, hpl, hs⟩

lemma EtasCounted.step {st : Step} (hs : EtasCounted s) (hadm : s.Admits st)
    (hask : st = .requestEtas → s.AllAsked) : ∃ s', s.step st = some s' ∧ EtasCounted s' := by
  cases st with
  | poll fd msg => exact hs.pollIn hadm
  | requestEtas => exact hs.requestClientEtas hadm (hask rfl)
  | drop fd =>
    obtain ⟨c, h⟩ := Option.isSome_iff_exists.1 hadm
    rw [ClientPool.step, removeClient_of_one h (hs.settled_of_find h).refs]
    exact hs.freeClient h

inductive EtaRun (cond : ClientPool → Prop) (s₀ : ClientPool) : ClientPool → Prop
  | start : EtaRun cond s₀ s₀
  | step {s s' : ClientPool} {a : Step} (hrun : EtaRun cond s₀ s) (hadmits : s.Admits a)
      (hcond : a = .requestEtas → cond s) (hstep : s.step a = some s') : EtaRun cond s₀ s'

structure NoEtaYet (s : ClientPool) : Prop where
  fds : (s.clients.map FioClient.fd).Nodup
  fresh : ∀ c ∈ s.clients, c.refs = 1 ∧ c.etaListed = false ∧ c.etaInFlight = none ∧ c.cmdList = []
  nr : s.nrClients = s.clients.length
  etas : ∀ e, s.etas e = none
  next : s.nextEta = 0
  out : s.out = []

lemma NoEtaYet.counted (h : NoEtaYet s) : EtasCounted s := by
  refine ⟨⟨?_, ?_, ?_⟩, h.fds, ?_, h.nr, ?_⟩
  · intro e eta he
    rw [h.etas] at he
    cases he
  · intro e _
    exact h.etas e
  · intro e
    simp [timesShown, h.out, h.next]
  · intro c hc
    obtain ⟨hrf, hlst, hflg, hcm⟩ := h.fresh c hc
    exact ⟨hrf, by rw [hlst, hflg]; rfl, by rw [hcm, hflg]; rfl⟩
  · intro e
    rw [pendingOf_none (h.etas e), owing, eq_comm, countP_eq_zero]
    intro c hc
    simp [owes, (h.fresh c hc).2.2.1]

lemma EtaRun.counted {s0 : ClientPool} (hs0 : NoEtaYet s0) (h : EtaRun AllAsked s0 s) :
    EtasCounted s := by
  induction h with
  | start => exact hs0.counted
  | step _ hadm hcn hst ih =>
    obtain ⟨s1, hst1, hs1⟩ := ih.step hadm hcn
    rw [hst] at hst1
    cases hst1
    exact hs1

/-- A status request is resolved: the counter is the number of clients that owe an answer, and the
    request is freed, after it was shown once, exactly when none is left. -/
structure EtasResolved (s : ClientPool) : Prop where
  pending : ∀ e eta, s.etas e = some eta → eta.pending = s.owing e
  freed : ∀ e, s.etas e = none ↔ s.owing e = 0
  shown : ∀ e, s.timesShown e = if e < s.nextEta ∧ s.owing e = 0 then 1 else 0

lemma EtasCounted.resolved (h : EtasCounted s) : EtasResolved s := by
  have hfr : ∀ e, s.etas e = none ↔ s.owing e = 0 := by
    intro e
    rw [← h.counted]
    cases he : s.etas e with
    | none => simp [pendingOf_none he]
    | some eta =>
      have hpos := h.live e eta he
      rw [pendingOf_some he]
      simp only [reduceCtorEq, false_iff]
      omega
  refine ⟨?_, hfr, ?_⟩
  · intro e eta he
    rw [← h.counted, pendingOf_some he]
  · intro e
    rw [h.shown]
    simp [hfr]

/-- **Status requests are resolved in every run in which each request finds every client running or
    still owing an older answer**; no step of such a run fails an assertion. -/
theorem etaRequests_resolved {s₀ s : ClientPool} (hs₀ : NoEtaYet s₀) (hrun : EtaRun AllAsked s₀ s) :
    EtasResolved s ∧
      ∀ st, s.Admits st → (st = .requestEtas → s.AllAsked) → (s.step st).isSome = true := by
  have hs := hrun.counted hs₀
  refine ⟨hs.resolved, ?_⟩
  intro st hadm hask
  obtain ⟨s', hst, -⟩ := hs.step hadm hask
  rw [hst]
  rfl

theorem etaRequests_resolved_two :
    ∃ s, EtaRun AllAsked (startWith [jobClient 3 .running, jobClient 4 .running]) s ∧
      s.nextEta = 1 ∧ EtasResolved s := by
  have hst : NoEtaYet (startWith [jobClient 3 .running, jobClient 4 .running]) :=
    ⟨by decide, by decide, rfl, fun _ => rfl, rfl, rfl⟩
  have hr : EtaRun AllAsked (startWith [jobClient 3 .running, jobClient 4 .running]) _ :=
    .step (a := .requestEtas) .start (show 0 < 2 by decide) (fun _ => by unfold AllAsked; decide) rfl
  exact ⟨_, hr, rfl, (etaRequests_resolved hst hr).1⟩

/-- Two clients of which one has started its job but does not run yet: the request waits for two
    answers and only one client owes one. -/
theorem etaRequest_never_resolved :
    ∃ s, (startWith [jobClient 3 .started, jobClient 4 .started]).run
        [.poll 3 .run, .requestEtas] = some s ∧
      ∃ eta, s.etas 0 = some eta ∧ eta.pending = 2 ∧ s.owing 0 = 1 :=
  ⟨_, rfl, _, rfl, rfl, rfl⟩

end ClientPool

end FioSsd
