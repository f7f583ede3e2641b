import FioSsd.Net.Status
import FioSsd.Stat.Sum

/-! # The clients of a client process

`client.c` keeps a list of connected clients, handles one message of one of them at a time, asks all
of them for their status every 900 ms (`request_client_etas`), and sums their end statistics
(`handle_ts`). -/

namespace FioSsd

open Option List

inductive ClientState
  | created | connected | started | running | stopped | exited
  deriving DecidableEq

structure FioClient where
  (fd refs : Nat)
  state : ClientState
  (jobs error : Word 4)
  etaListed : Bool
  etaInFlight : Option Nat
  cmdList : List Nat
  deriving DecidableEq

structure ClientEta where
  eta : JobsEta Word
  pending : Nat

inductive ClientOut
  | summed (fd : Nat)
  | allClients (sums : ClientSums)
  | etaStatus (e : Nat) (je : JobsEta Word)

structure ClientPool where
  clients : List FioClient
  (nrClients sumStatClients : Nat)
  sums : ClientSums
  etas : Nat → Option ClientEta
  nextEta : Nat
  out : List ClientOut

/-- A message of a client; `disconnected` stands for `fio_net_recv_cmd` returning nothing, `other`
    for messages that are only printed. -/
inductive ClientMsg
  | quit
  | ts (ts : Stats) (rs : GroupRunStats Count)
  | eta (e : Nat) (je : JobsEta Word)
  | run
  | start (jobs : Word 4)
  | stop (error : Word 4)
  | other
  | disconnected

def JobsEta.zero : JobsEta Word :=
  { nrRunning := 0, nrRamp := 0, nrPending := 0, filesOpen := 0, mRate := 0, tRate := 0, mIops := 0
    tIops := 0, rate := fun _ => 0, iops := fun _ => 0, elapsedSec := 0, etaSec := 0, nrThreads := 0 }

def sumJobsEta (dst je : JobsEta Word) : JobsEta Word :=
  { dst with
    nrRunning := dst.nrRunning + je.nrRunning, nrRamp := dst.nrRamp + je.nrRamp
    nrPending := dst.nrPending + je.nrPending, filesOpen := dst.filesOpen + je.filesOpen
    mRate := dst.mRate + je.mRate, tRate := dst.tRate + je.tRate
    mIops := dst.mIops + je.mIops, tIops := dst.tIops + je.tIops
    rate := fun i => dst.rate i + je.rate i, iops := fun i => dst.iops i + je.iops i
    elapsedSec := dst.elapsedSec + je.elapsedSec
    etaSec := if dst.etaSec.toNat < je.etaSec.toNat then je.etaSec else dst.etaSec }

namespace ClientPool

variable (s : ClientPool)

def findClient (fd : Nat) : Option FioClient :=
  s.clients.find? fun c => decide (c.fd = fd)

def setClient (fd : Nat) (f : FioClient → FioClient) : ClientPool :=
  { s with clients := s.clients.map fun c => if c.fd = fd then f c else c }

def eraseClient (fd : Nat) : ClientPool :=
  { s with clients := s.clients.filter fun c => decide (c.fd ≠ fd) }

def decJobsEta (e : Nat) : Option ClientPool :=
  match s.etas e with
  | none => none
  | some eta =>
    if eta.pending - 1 = 0 then
      some { s with etas := Function.update s.etas e none, out := s.out ++ [.etaStatus e eta.eta] }
    else
      some { s with
        etas := Function.update s.etas e (some { eta with pending := eta.pending - 1 }) }

def countDown : ClientPool :=
  { s with nrClients := s.nrClients - 1, sumStatClients := s.sumStatClients - 1 }

def freeClient (c : FioClient) : Option ClientPool :=
  if c.etaListed then
    match c.etaInFlight with
    | none => none
    | some e => ((s.eraseClient c.fd).decJobsEta e).map countDown
  else some (s.eraseClient c.fd).countDown

def removeClient (fd : Nat) : Option ClientPool :=
  match s.findClient fd with
  | none => none
  | some c =>
    if c.refs = 0 then none
    else if c.refs - 1 ≠ 0 then some (s.setClient fd fun c => { c with refs := c.refs - 1 })
    else s.freeClient c

/-- `handle_ts`: the statistics of a single client are not summed; behind the last one the sum is
shown. -/
def receiveTs (fd : Nat) (ts : Stats) (rs : GroupRunStats Count) : ClientPool :=
  { s with
    sums := handleTs s.sums s.sumStatClients ts rs
    out := s.out ++
      if s.sumStatClients = 1 then []
      else .summed fd ::
        if s.sums.nr + 1 = s.sumStatClients then
          [.allClients (handleTs s.sums s.sumStatClients ts rs)]
        else [] }

def addEta (e : Nat) (je : JobsEta Word) : Option ClientPool :=
  match s.etas e with
  | none => none
  | some eta =>
    some { s with
      etas := Function.update s.etas e (some { eta with eta := sumJobsEta eta.eta je }) }

def receiveEta (fd e : Nat) (je : JobsEta Word) : Option ClientPool :=
  match s.findClient fd with
  | none => none
  | some c =>
    if e ∉ c.cmdList then none
    else if c.etaInFlight ≠ some e then none
    else
      let s := s.setClient fd fun c =>
        { c with cmdList := c.cmdList.erase e, etaInFlight := none, etaListed := false }
      (s.addEta e je).bind fun s => s.decJobsEta e

def handleClient (fd : Nat) : ClientMsg → Option ClientPool
  | .quit => s.removeClient fd
  | .ts ts rs => some (s.receiveTs fd ts rs)
  | .eta e je => s.receiveEta fd e je
  | .run => some (s.setClient fd fun c => { c with state := .running })
  | .start jobs => some (s.setClient fd fun c => { c with state := .started, jobs := jobs })
  | .stop error => some (s.setClient fd fun c => { c with state := .stopped, error := error })
  | .other => some s
  | .disconnected => s.removeClient fd

/-- One descriptor in the loop of `fio_handle_clients`: the client is found and referenced, its
    message is handled, and the reference is dropped. -/
def pollIn (fd : Nat) (msg : ClientMsg) : Option ClientPool :=
  match s.findClient fd with
  | none => some s
  | some _ =>
    ((s.setClient fd fun c => { c with refs := c.refs + 1 }).handleClient fd msg).bind
      fun s => s.removeClient fd

/-- The loop of `request_client_etas`: the clients behind it, and `skipped`. -/
def requestLoop (e : Nat) : List FioClient → Option (List FioClient × Nat)
  | [] => some ([], 0)
  | c :: cs =>
    (requestLoop e cs).bind fun (cs', skipped) =>
      if c.etaListed then some (c :: cs', skipped + 1)
      else if c.state ≠ .running then some (c :: cs', skipped)
      else if c.etaInFlight ≠ none then none
      else some ({ c with etaListed := true, etaInFlight := some e
                          cmdList := c.cmdList ++ [e] } :: cs', skipped)

def decSkipped (e : Nat) : Nat → ClientPool → Option ClientPool
  | 0, s => some s
  | n + 1, s => (s.decJobsEta e).bind (decSkipped e n)

def requestClientEtas : Option ClientPool :=
  (requestLoop s.nextEta s.clients).bind fun (clients, skipped) =>
    decSkipped s.nextEta skipped
      { s with
        clients := clients, nextEta := s.nextEta + 1
        etas := Function.update s.etas s.nextEta (some ⟨JobsEta.zero, s.nrClients⟩) }

/-- What `fio_handle_clients` does next: handle a message, ask for the status, or drop a client
    that has no job or timed out. -/
inductive Step
  | poll (fd : Nat) (msg : ClientMsg)
  | requestEtas
  | drop (fd : Nat)

def step : Step → Option ClientPool
  | .poll fd msg => s.pollIn fd msg
  | .requestEtas => s.requestClientEtas
  | .drop fd => s.removeClient fd

def run (s : ClientPool) : List Step → Option ClientPool
  | [] => some s
  | st :: rest => (s.step st).bind fun s => s.run rest

def jobClient (fd : Nat) (state : ClientState) : FioClient :=
  { fd := fd, refs := 1, state := state, jobs := 1, error := 0, etaListed := false
    etaInFlight := none, cmdList := [] }

def startWith (clients : List FioClient) : ClientPool :=
  { clients := clients, nrClients := clients.length, sumStatClients := clients.length
    sums := ClientSums.start, etas := fun _ => none, nextEta := 0, out := [] }

variable {s : ClientPool} {fd : Nat} {c : FioClient}

lemma findClient_fd (h : s.findClient fd = some c) : c.fd = fd := by
  simpa using find?_some h

lemma findClient_mem (h : s.findClient fd = some c) : c ∈ s.clients := mem_of_find?_eq_some h

variable {f : FioClient → FioClient}

lemma findClient_setClient (h : ∀ c, (f c).fd = c.fd) :
    (s.setClient fd f).findClient fd = (s.findClient fd).map f := by
  unfold findClient setClient
  induction s.clients with
  | nil => rfl
  | cons x xs ih =>
    by_cases hx : x.fd = fd
    · simp [hx, h]
    · simpa [hx, find?_cons] using ih

lemma setClient_setClient {f g : FioClient → FioClient} (h : ∀ c, (f c).fd = c.fd) :
    (s.setClient fd f).setClient fd g = s.setClient fd (fun c => g (f c)) := by
  simp only [setClient, List.map_map, mk.injEq, and_true]
  apply List.map_congr_left
  intro x _
  by_cases hx : x.fd = fd
  · simp [hx, h]
  · simp [hx]

lemma setClient_self (h : ∀ c, f c = c) : s.setClient fd f = s := by
  unfold setClient
  have hmap : (s.clients.map fun c => if c.fd = fd then f c else c) = s.clients := by
    conv_rhs => rw [← map_id s.clients]
    apply map_congr_left
    intro x _
    simp [h]
  rw [hmap]

lemma removeClient_of_two_le (h : s.findClient fd = some c) (hrf : 2 ≤ c.refs) :
    s.removeClient fd = some (s.setClient fd fun c => { c with refs := c.refs - 1 }) := by
  rw [removeClient, h]
  simp only
  rw [if_neg (by omega), if_pos (by omega)]

lemma removeClient_of_one (h : s.findClient fd = some c) (hrf : c.refs = 1) :
    s.removeClient fd = s.freeClient c := by
  rw [removeClient, h]
  simp only
  rw [if_neg (by omega), if_neg (by omega)]

lemma findClient_held (h : s.findClient fd = some c) :
    (s.setClient fd fun c => { c with refs := c.refs + 1 }).findClient fd =
      some { c with refs := c.refs + 1 } := by
  rw [findClient_setClient (by simp), h, map_some]

structure Keeps (f : FioClient → FioClient) : Prop where
  fd : ∀ c, (f c).fd = c.fd
  refs : ∀ c, (f c).refs = c.refs

variable {msg : ClientMsg}

lemma pollIn_setClient (hf : Keeps f)
    (hcm : ∀ c : FioClient, f { c with refs := c.refs + 1 } = { f c with refs := c.refs + 1 })
    (hmsg : ∀ s : ClientPool, s.handleClient fd msg = some (s.setClient fd f))
    (h : s.findClient fd = some c) (hrf : c.refs = 1) :
    s.pollIn fd msg = some (s.setClient fd f) := by
  rw [pollIn, h]
  simp only
  rw [hmsg, bind_some, setClient_setClient (by simp)]
  have hfn : (s.setClient fd fun c => f { c with refs := c.refs + 1 }).findClient fd =
      some (f { c with refs := c.refs + 1 }) := by
    rw [findClient_setClient (fun c => by rw [hf.fd]), h, map_some]
  rw [removeClient_of_two_le hfn (by rw [hf.refs]; simp only; omega),
    setClient_setClient (fun c => by rw [hf.fd])]
  congr 2
  funext c
  rw [hcm]
  have hbc := hf.refs c
  simp only [Nat.add_sub_cancel]
  rw [← hbc]

lemma pollIn_apart {g : ClientPool → ClientPool}
    (hg : ∀ (s : ClientPool) (f : FioClient → FioClient), g (s.setClient fd f) = (g s).setClient fd f)
    (hmsg : ∀ s : ClientPool, s.handleClient fd msg = some (g s))
    (hfn : (g s).findClient fd = some c) (h : s.findClient fd = some c) (hrf : c.refs = 1) :
    s.pollIn fd msg = some (g s) := by
  rw [pollIn, h]
  rw [hmsg, bind_some, hg]
  rw [removeClient_of_two_le (findClient_held hfn) (by simp only; omega), setClient_setClient (by simp)]
  simp only [Nat.add_sub_cancel]
  rw [setClient_self (fun c => rfl)]

lemma pollIn_removes
    (hmsg : ∀ s : ClientPool, s.handleClient fd msg = s.removeClient fd)
    (h : s.findClient fd = some c) (hrf : c.refs = 1) : s.pollIn fd msg = s.freeClient c := by
  rw [pollIn, h]
  rw [hmsg, removeClient_of_two_le (findClient_held h) (by simp only; omega), bind_some,
    setClient_setClient (by simp)]
  simp only [Nat.add_sub_cancel]
  rw [setClient_self (fun c => rfl), removeClient_of_one h hrf]

end ClientPool

end FioSsd
