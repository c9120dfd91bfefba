import IMServer.ClientSession
import IMServer.Framing
import IMServer.Lib.Heap

/-!
# Connections and sessions

The callbacks of `IMServer`, over all connections at once. A session is owned by `_mapClientSession`
alone, the connection has a plain pointer to it in its message callback, and the constructor of the
session writes the key into the connection, over the name the transport gave it.
-/

namespace IMServer

/-- `TcpConnection::StateE` without `kDisconnecting`: the server never calls `shutdown`. -/
inductive ConnState
  | connecting
  | connected
  | disconnected
deriving DecidableEq

structure TcpConnection where
  name : Bytes
  state : ConnState := .connecting
  /-- the session whose `onRead` is bound, none for the default callback -/
  messageCallback : Option Nat := none
  inputBuffer : Buffer := Buffer.empty
  /-- what was passed to `send`, in order -/
  sent : List Reply := []

/-- The server, every connection it has been told of, and the sessions on the heap. -/
structure Instance where
  conns : List TcpConnection := []
  sessions : Heap ClientSession := {}
  mapClientSession : List (Bytes × Nat) := []
  store : Store := {}

namespace Instance

/-- The constructor `ClientSession::ClientSession`. -/
def newClientSession (s : Instance) (i : Nat) (conn : TcpConnection) (sessionId : Bytes) : Instance :=
  { s with
    sessions := s.sessions.alloc {}
    conns := s.conns.set i { conn with name := sessionId, messageCallback := some s.sessions.next } }

/-- A session `insert` does not take is destroyed with the pointer to it. -/
def insertSession (s : Instance) (sessionId : Bytes) (client : Nat) : Instance :=
  match AssocMap.find s.mapClientSession sessionId with
  | none => { s with mapClientSession := AssocMap.insert sessionId client s.mapClientSession }
  | some _ => { s with sessions := s.sessions.free client }

def onClose (s : Instance) (conn : TcpConnection) : Instance :=
  match AssocMap.find s.mapClientSession conn.name with
  | some client => { s with
      mapClientSession := AssocMap.erase s.mapClientSession conn.name
      sessions := s.sessions.free client }
  | none => s

/-- `uuid` is what the generator returns, if it is asked. -/
def onConnection (s : Instance) (i : Nat) (conn : TcpConnection) (uuid : Bytes) : Instance :=
  if conn.state = .connected then (s.newClientSession i conn uuid).insertSession uuid s.sessions.next
  else s.onClose conn

/-- `TcpConnection::handleRead` with `chunk` for what the socket had. -/
def handleRead (s : Instance) (i : Nat) (conn : TcpConnection) (chunk : Bytes) : Except Fault Instance :=
  match conn.messageCallback with
  | none => do
    let buf ← conn.inputBuffer.append chunk
    return { s with conns := s.conns.set i { conn with inputBuffer := buf.retrieveAll } }
  | some client =>
    match s.sessions.get client with
    | none => .error .outOfBounds
    | some session => do
      let ((store, session), buf) ← receive ClientSession.process
        ((s.store, { session with sent := conn.sent }), conn.inputBuffer) chunk
      return { s with
        store := store
        sessions := s.sessions.set client session
        conns := s.conns.set i { conn with inputBuffer := buf, sent := session.sent } }

end Instance

/-- What the event loop does: a connection object is made, a connection callback comes in one of the
two states, or bytes have arrived. -/
inductive Event
  | create (name : Bytes)
  | connected (i : Nat) (uuid : Bytes)
  | disconnected (i : Nat)
  | message (i : Nat) (chunk : Bytes)
deriving DecidableEq

namespace Instance

def step (s : Instance) : Event → Except Fault Instance
  | .create name => .ok { s with conns := s.conns ++ [{ name := name }] }
  | .connected i uuid =>
    match s.conns[i]? with
    | none => .error .nullPointer
    | some conn =>
      let conn := { conn with state := .connected }
      .ok ({ s with conns := s.conns.set i conn }.onConnection i conn uuid)
  | .disconnected i =>
    match s.conns[i]? with
    | none => .error .nullPointer
    | some conn =>
      let conn := { conn with state := .disconnected }
      .ok ({ s with conns := s.conns.set i conn }.onConnection i conn [])
  | .message i chunk =>
    match s.conns[i]? with
    | none => .error .nullPointer
    | some conn => s.handleRead i conn chunk

/-- The states reached by steps of which each was allowed, with the events so far. -/
inductive Runs (allowed : List Event → Instance → Event → Prop) (store : Store) : List Event → Instance → Prop
  | start : Runs allowed store [] { store := store }
  | step {es : List Event} {s s' : Instance} {e : Event} (h : Runs allowed store es s) (hok : allowed es s e)
      (hstep : s.step e = .ok s') : Runs allowed store (es ++ [e]) s'

/-- A connection connects once at most and then disconnects once at most, or disconnects without ever
having connected; bytes arrive in between. -/
def Callbacks (s : Instance) : Event → Prop
  | .create _ => True
  | .connected i _ => ∃ conn, s.conns[i]? = some conn ∧ conn.state = .connecting
  | .disconnected i => ∃ conn, s.conns[i]? = some conn ∧ conn.state ≠ .disconnected
  | .message i _ => ∃ conn, s.conns[i]? = some conn ∧ conn.state = .connected

end Instance

def Event.uuid : Event → Option Bytes
  | connected _ uuid => some uuid
  | _ => none

/-- Generated strings are new each time and no names of the transport's own. -/
def DistinctNames (ServerName : Bytes → Prop) (es : List Event) : Event → Prop
  | .create name => ServerName name
  | .connected _ uuid => ¬ ServerName uuid ∧ uuid ∉ es.filterMap Event.uuid
  | _ => True

def Instance.Allowed (ServerName : Bytes → Prop) (es : List Event) (s : Instance) (e : Event) : Prop :=
  s.Callbacks e ∧ DistinctNames ServerName es e

/-! ### The connections that are up -/

def TcpConnection.up (conn : TcpConnection) : Option (Bytes × Option Nat) :=
  if conn.state = .connected then some (conn.name, conn.messageCallback) else none

theorem TcpConnection.up_pos {conn : TcpConnection} (h : conn.state = .connected) :
    conn.up = some (conn.name, conn.messageCallback) := if_pos h

theorem TcpConnection.up_neg {conn : TcpConnection} (h : conn.state ≠ .connected) : conn.up = none := if_neg h

namespace Instance
variable {s s' : Instance} {i : Nat} {conn : TcpConnection}

/-- The name and the message callback of a connection that is up. -/
def upAt (s : Instance) (i : Nat) : Option (Bytes × Option Nat) := (s.conns[i]?).bind TcpConnection.up

/-- The session map tracks the connections that are up. -/
structure Tracks (s : Instance) : Prop where
  keys : (s.mapClientSession.map Prod.fst).Nodup
  /-- each has an entry under its name: the session its callback is bound to, which is alive -/
  up : ∀ i name callback, s.upAt i = some (name, callback) →
    ∃ a c, callback = some a ∧ (name, a) ∈ s.mapClientSession ∧ s.sessions.get a = some c
  /-- there is no other entry -/
  only : ∀ name a, (name, a) ∈ s.mapClientSession → ∃ i, s.upAt i = some (name, some a)
  /-- no two share a name or a session -/
  apart : ∀ i j p q, s.upAt i = some p → s.upAt j = some q → p.1 = q.1 ∨ p.2 = q.2 → i = j
  /-- no session outlives its connection -/
  owned : ∀ a c, s.sessions.get a = some c → ∃ name, (name, a) ∈ s.mapClientSession

theorem getElem?_set_of {α : Type} {l : List α} {i : Nat} {x : α} (h : l[i]? = some x) (y : α) (j : Nat) :
    (l.set i y)[j]? = if j = i then some y else l[j]? := by
  by_cases hj : j = i
  · rw [if_pos hj, hj, List.getElem?_set_self (List.getElem?_eq_some_iff.1 h).1]
  · rw [if_neg hj, List.getElem?_set_ne (Ne.symm hj)]

theorem of_getElem?_concat {α : Type} {l : List α} {i : Nat} {x y : α} (h : (l ++ [x])[i]? = some y) :
    l[i]? = some y ∨ i = l.length ∧ y = x := by
  rcases Nat.lt_trichotomy i l.length with hlt | rfl | hgt
  · rw [List.getElem?_append_left hlt] at h
    exact .inl h
  · rw [List.getElem?_concat_length] at h
    exact .inr ⟨rfl, (Option.some.inj h).symm⟩
  · rw [List.getElem?_eq_none (by rw [List.length_append, List.length_singleton]; omega)] at h
    cases h

theorem upAt_set (h : s.conns[i]? = some conn) (conn' : TcpConnection)
    (hs' : s'.conns = s.conns.set i conn') (j : Nat) :
    s'.upAt j = if j = i then conn'.up else s.upAt j := by
  rw [upAt, hs', getElem?_set_of h, upAt]
  split <;> rfl

theorem upAt_create (s : Instance) (name : Bytes) (i : Nat) :
    Instance.upAt { s with conns := s.conns ++ [{ name := name }] } i = s.upAt i := by
  unfold upAt
  rcases Nat.lt_trichotomy i s.conns.length with h | rfl | h
  · rw [List.getElem?_append_left h]
  · rw [List.getElem?_concat_length, List.getElem?_eq_none (Nat.le_refl _)]
    rfl
  · rw [List.getElem?_eq_none (by rw [List.length_append, List.length_singleton]; omega),
      List.getElem?_eq_none (Nat.le_of_lt h)]

theorem upAt_eq (h : s.conns[i]? = some conn) : s.upAt i = conn.up := by
  rw [upAt, h]
  rfl

/-! ### Steps -/

theorem step_connected (h : s.conns[i]? = some conn) {uuid : Bytes}
    (hnew : AssocMap.find s.mapClientSession uuid = none) :
    s.step (.connected i uuid) = .ok { s with
      conns := s.conns.set i
        { conn with state := .connected, name := uuid, messageCallback := some s.sessions.next }
      sessions := s.sessions.alloc {}
      mapClientSession := AssocMap.insert uuid s.sessions.next s.mapClientSession } := by
  simp only [step, h, onConnection, if_true, newClientSession, insertSession, hnew, List.set_set]

/-- Also when the name is taken and the session is gone at once. -/
theorem connected_spec (h : s.conns[i]? = some conn) (uuid : Bytes) :
    ∃ s', s.step (.connected i uuid) = .ok s' ∧
      s'.conns = s.conns.set i
        { conn with state := .connected, name := uuid, messageCallback := some s.sessions.next } ∧
      s'.store = s.store ∧ s'.sessions.next = s.sessions.next + 1 ∧
      ∀ a c, s'.sessions.get a = some c → a = s.sessions.next ∧ c = {} ∨ s.sessions.get a = some c := by
  have hget : ∀ a c, (s.sessions.alloc {}).get a = some c →
      a = s.sessions.next ∧ c = {} ∨ s.sessions.get a = some c := by
    intro a c ha
    rw [Heap.get_alloc] at ha
    split at ha
    · next hnext => exact .inl ⟨hnext, (Option.some.inj ha).symm⟩
    · exact .inr ha
  simp only [step, h, onConnection, if_true, newClientSession, insertSession, List.set_set]
  split
  · exact ⟨_, rfl, rfl, rfl, Heap.next_alloc _, hget⟩
  · refine ⟨_, rfl, rfl, rfl, (Heap.next_free _).trans (Heap.next_alloc _), fun a c ha => ?_⟩
    exact hget a c (Heap.get_of_free ha)

theorem step_disconnected (h : s.conns[i]? = some conn) :
    s.step (.disconnected i) =
      .ok ({ s with conns := s.conns.set i { conn with state := .disconnected } }.onClose conn) := by
  simp only [step, h, onConnection]
  rfl

theorem disconnected_spec (h : s.conns[i]? = some conn) (hstep : s.step (.disconnected i) = .ok s') :
    s'.conns = s.conns.set i { conn with state := .disconnected } ∧ s'.store = s.store ∧
      s'.sessions.next = s.sessions.next ∧
      ∀ a c, s'.sessions.get a = some c → s.sessions.get a = some c := by
  rw [Except.ok_unique hstep (step_disconnected h), onClose]
  split
  · exact ⟨rfl, rfl, Heap.next_free _, fun _ _ ha => Heap.get_of_free ha⟩
  · exact ⟨rfl, rfl, rfl, fun _ _ ha => ha⟩

theorem onClose_some {client : Nat} (h : AssocMap.find s.mapClientSession conn.name = some client) :
    s.onClose conn = { s with
      mapClientSession := AssocMap.erase s.mapClientSession conn.name
      sessions := s.sessions.free client } := by
  rw [onClose, h]

theorem onClose_none (h : AssocMap.find s.mapClientSession conn.name = none) : s.onClose conn = s := by
  rw [onClose, h]

theorem step_message (h : s.conns[i]? = some conn) {a : Nat} (ha : conn.messageCallback = some a)
    {c : ClientSession} (hc : s.sessions.get a = some c) (chunk : Bytes) :
    s.step (.message i chunk) =
      (receive ClientSession.process ((s.store, { c with sent := conn.sent }), conn.inputBuffer) chunk).map
        fun p => { s with
          store := p.1.1
          sessions := s.sessions.set a p.1.2
          conns := s.conns.set i { conn with inputBuffer := p.2, sent := p.1.2.sent } } := by
  simp only [step, h, handleRead, ha, hc]
  rcases receive ClientSession.process _ chunk with e | p <;> rfl

/-! ### What steps do to a state that tracks -/

theorem Tracks.congr (h : Tracks s) (hmap : s'.mapClientSession = s.mapClientSession)
    (hup : ∀ i, s'.upAt i = s.upAt i) (hlive : ∀ a, (s'.sessions.get a).isSome = (s.sessions.get a).isSome) :
    Tracks s' := by
  have hget : ∀ {t t' : Instance}, (∀ a, (t'.sessions.get a).isSome = (t.sessions.get a).isSome) →
      ∀ {a c}, t.sessions.get a = some c → ∃ c', t'.sessions.get a = some c' := by
    intro t t' hl a c hc
    exact Option.isSome_iff_exists.1 ((hl a).trans (by rw [hc]; rfl))
  refine ⟨hmap ▸ h.keys, ?_, ?_, ?_, ?_⟩
  · intro i name callback hi
    obtain ⟨a, c, rfl, hmem, hc⟩ := h.up i name callback (hup i ▸ hi)
    obtain ⟨c', hc'⟩ := hget hlive hc
    exact ⟨a, c', rfl, hmap ▸ hmem, hc'⟩
  · intro name a hmem
    obtain ⟨i, hi⟩ := h.only name a (hmap ▸ hmem)
    exact ⟨i, hup i ▸ hi⟩
  · intro i j p q hi hj
    exact h.apart i j p q (hup i ▸ hi) (hup j ▸ hj)
  · intro a c hc
    obtain ⟨c', hc'⟩ := hget (fun a => (hlive a).symm) hc
    rw [hmap]
    exact h.owned a c' hc'

/-- The next address is nobody's yet, nor is a name that is no key. -/
theorem Tracks.fresh (h : Tracks s) {uuid : Bytes} (hkey : uuid ∉ s.mapClientSession.map Prod.fst) {j : Nat}
    {p : Bytes × Option Nat} (hj : s.upAt j = some p) : p.1 ≠ uuid ∧ p.2 ≠ some s.sessions.next := by
  obtain ⟨name, callback⟩ := p
  obtain ⟨a, c, rfl, hin, hc⟩ := h.up j name callback hj
  refine ⟨fun he => hkey (List.mem_map.2 ⟨_, hin, he⟩), fun he => ?_⟩
  exact absurd (Heap.lt_next hc) (by rw [Option.some.inj he]; exact Nat.lt_irrefl _)

theorem Tracks.opened (h : Tracks s) {uuid : Bytes} (hnew : AssocMap.find s.mapClientSession uuid = none)
    (hmap : s'.mapClientSession = AssocMap.insert uuid s.sessions.next s.mapClientSession)
    (hup : ∀ j, s'.upAt j = if j = i then some (uuid, some s.sessions.next) else s.upAt j)
    (hdown : s.upAt i = none) (hsessions : s'.sessions = s.sessions.alloc {}) : Tracks s' := by
  have hkey := AssocMap.find_eq_none.1 hnew
  have hperm := AssocMap.insert_perm hkey s.sessions.next
  have hmem : ∀ e, e ∈ s'.mapClientSession ↔ e = (uuid, s.sessions.next) ∨ e ∈ s.mapClientSession := by
    intro e
    rw [hmap, hperm.mem_iff, List.mem_cons]
  have hget : ∀ a, s'.sessions.get a = if a = s.sessions.next then some {} else s.sessions.get a := by
    intro a
    rw [hsessions, Heap.get_alloc]
  refine ⟨?_, ?_, ?_, ?_, ?_⟩
  · rw [hmap, (hperm.map _).nodup_iff, List.map_cons, List.nodup_cons]
    exact ⟨hkey, h.keys⟩
  · intro j name callback hj
    rw [hup] at hj
    split at hj
    · cases hj
      exact ⟨_, _, rfl, (hmem _).2 (.inl rfl), by rw [hget, if_pos rfl]⟩
    · obtain ⟨a, c, rfl, hin, hc⟩ := h.up j name callback hj
      have ha := (h.fresh hkey hj).2
      exact ⟨a, c, rfl, (hmem _).2 (.inr hin), by rw [hget, if_neg fun he => ha (by rw [he])]; exact hc⟩
  · intro name a hin
    rcases (hmem _).1 hin with heq | hin
    · cases heq
      exact ⟨i, by rw [hup, if_pos rfl]⟩
    · obtain ⟨j, hj⟩ := h.only name a hin
      refine ⟨j, ?_⟩
      rw [hup, if_neg, hj]
      rintro rfl
      cases hdown.symm.trans hj
  · intro j k p q hj hk hpq
    rw [hup] at hj hk
    split at hj <;> split at hk
    · next hji hki => rw [hji, hki]
    · cases hj
      have := h.fresh hkey hk
      rcases hpq with he | he
      · exact absurd he.symm this.1
      · exact absurd he.symm this.2
    · cases hk
      have := h.fresh hkey hj
      rcases hpq with he | he
      · exact absurd he this.1
      · exact absurd he this.2
    · exact h.apart j k p q hj hk hpq
  · intro a c hc
    rw [hget] at hc
    split at hc
    · next ha => exact ⟨uuid, (hmem _).2 (.inl (by rw [ha]))⟩
    · obtain ⟨name, hin⟩ := h.owned a c hc
      exact ⟨name, (hmem _).2 (.inr hin)⟩

theorem Tracks.closed (h : Tracks s) {name : Bytes} {a : Nat} (hi : s.upAt i = some (name, some a))
    (hmap : s'.mapClientSession = AssocMap.erase s.mapClientSession name)
    (hup : ∀ j, s'.upAt j = if j = i then none else s.upAt j)
    (hsessions : s'.sessions = s.sessions.free a) : Tracks s' := by
  have hmem : ∀ e, e ∈ s'.mapClientSession ↔ e ∈ s.mapClientSession ∧ e.1 ≠ name := by
    intro e
    rw [hmap, AssocMap.mem_erase]
  have hget : ∀ b, s'.sessions.get b = if b = a then none else s.sessions.get b := by
    intro b
    rw [hsessions, Heap.get_free]
  have hback : ∀ {j p}, s'.upAt j = some p → j ≠ i ∧ s.upAt j = some p := by
    intro j p hj
    rw [hup] at hj
    split at hj
    · cases hj
    · next hne => exact ⟨hne, hj⟩
  refine ⟨by rw [hmap]; exact AssocMap.nodup_erase h.keys name, ?_, ?_, ?_, ?_⟩
  · intro j name' callback hj
    obtain ⟨hne, hj⟩ := hback hj
    obtain ⟨b, c, rfl, hin, hc⟩ := h.up j name' callback hj
    refine ⟨b, c, rfl, (hmem _).2 ⟨hin, fun he => hne (h.apart j i _ _ hj hi (.inl he))⟩, ?_⟩
    rw [hget, if_neg, hc]
    rintro rfl
    exact hne (h.apart j i _ _ hj hi (.inr rfl))
  · intro name' b hin
    obtain ⟨hin, hne⟩ := (hmem _).1 hin
    obtain ⟨j, hj⟩ := h.only name' b hin
    refine ⟨j, ?_⟩
    rw [hup, if_neg, hj]
    rintro rfl
    cases hi.symm.trans hj
    exact hne rfl
  · intro j k p q hj hk
    exact h.apart j k p q (hback hj).2 (hback hk).2
  · intro b c hc
    rw [hget] at hc
    split at hc
    · cases hc
    · next hne =>
      obtain ⟨name', hin⟩ := h.owned b c hc
      refine ⟨name', (hmem _).2 ⟨hin, fun he => hne ?_⟩⟩
      obtain ⟨a', c', ha', hin', -⟩ := h.up i name _ hi
      cases ha'
      exact AssocMap.unique_of_nodup h.keys (he ▸ hin) hin'

/-- A state that tracks, and where its names come from. -/
structure Inv (ServerName : Bytes → Prop) (es : List Event) (s : Instance) : Prop where
  tracks : Tracks s
  connecting : ∀ (i : Nat) (conn : TcpConnection), s.conns[i]? = some conn → conn.state = .connecting →
    ServerName conn.name
  named : ∀ i p, s.upAt i = some p → p.1 ∈ es.filterMap Event.uuid
  uuids : ∀ uuid ∈ es.filterMap Event.uuid, ¬ ServerName uuid

namespace Inv
variable {ServerName : Bytes → Prop} {es : List Event}

theorem find_none (h : Inv ServerName es s) {name : Bytes} (hname : name ∉ es.filterMap Event.uuid) :
    AssocMap.find s.mapClientSession name = none := by
  refine AssocMap.find_eq_none.2 fun hin => ?_
  obtain ⟨⟨_, a⟩, hentry, rfl⟩ := List.mem_map.1 hin
  obtain ⟨i, hi⟩ := h.tracks.only _ a hentry
  exact hname (h.named i _ hi)

theorem create (h : Inv ServerName es s) {name : Bytes} (hname : ServerName name)
    (hstep : s.step (.create name) = .ok s') : Inv ServerName (es ++ [.create name]) s' := by
  cases hstep
  have hes : (es ++ [Event.create name]).filterMap Event.uuid = es.filterMap Event.uuid := by simp [Event.uuid]
  refine ⟨h.tracks.congr rfl (upAt_create s name) fun _ => rfl, ?_, ?_, ?_⟩
  · intro i conn hi hconn
    rcases of_getElem?_concat hi with hi | ⟨-, rfl⟩
    · exact h.connecting i conn hi hconn
    · exact hname
  · intro i p hi
    rw [hes]
    rw [upAt_create] at hi
    exact h.named i p hi
  · rw [hes]
    exact h.uuids

theorem connect (h : Inv ServerName es s) (hi : s.conns[i]? = some conn) (hconn : conn.state = .connecting)
    {uuid : Bytes} (hnew : ¬ ServerName uuid ∧ uuid ∉ es.filterMap Event.uuid)
    (hstep : s.step (.connected i uuid) = .ok s') : Inv ServerName (es ++ [.connected i uuid]) s' := by
  have hfind := h.find_none hnew.2
  have hs' := Except.ok_unique hstep (step_connected hi hfind)
  have hup := upAt_set hi _ (congrArg conns hs')
  have hes : (es ++ [Event.connected i uuid]).filterMap Event.uuid = es.filterMap Event.uuid ++ [uuid] := by
    simp [Event.uuid]
  have hdown : s.upAt i = none := by
    rw [upAt_eq hi, TcpConnection.up_neg]
    rw [hconn]
    decide
  refine ⟨h.tracks.opened hfind (congrArg mapClientSession hs') hup hdown (congrArg sessions hs'), ?_, ?_, ?_⟩
  · intro j conn' hj hstate
    rw [congrArg conns hs', getElem?_set_of hi] at hj
    split at hj
    · cases hj
      cases hstate
    · exact h.connecting j conn' hj hstate
  · intro j p hj
    rw [hes, List.mem_append, List.mem_singleton]
    rw [hup] at hj
    split at hj
    · cases hj
      exact .inr rfl
    · exact .inl (h.named j p hj)
  · intro u hu
    rw [hes, List.mem_append, List.mem_singleton] at hu
    rcases hu with hu | rfl
    · exact h.uuids u hu
    · exact hnew.1

/-- Events without a generated string that leave the connections connecting as they are. -/
theorem kept (h : Inv ServerName es s) {e : Event} (he : e.uuid = none) (htracks : Tracks s')
    (hup : ∀ j p, s'.upAt j = some p → ∃ q, s.upAt j = some q ∧ p.1 = q.1)
    (hconns : ∀ (j : Nat) (conn : TcpConnection), s'.conns[j]? = some conn → conn.state = .connecting →
      s.conns[j]? = some conn) : Inv ServerName (es ++ [e]) s' := by
  have hes : (es ++ [e]).filterMap Event.uuid = es.filterMap Event.uuid := by simp [he]
  refine ⟨htracks, fun j conn hj hstate => h.connecting j conn (hconns j conn hj hstate) hstate, ?_, ?_⟩
  · intro j p hj
    obtain ⟨q, hq, heq⟩ := hup j p hj
    rw [hes, heq]
    exact h.named j q hq
  · rw [hes]
    exact h.uuids

theorem tracks_disconnect (h : Inv ServerName es s) (hi : s.conns[i]? = some conn)
    (hconn : conn.state ≠ .disconnected) (hstep : s.step (.disconnected i) = .ok s') : Tracks s' := by
  have hs' := Except.ok_unique hstep (step_disconnected hi)
  have hup := upAt_set hi _ (disconnected_spec hi hstep).1
  by_cases hstate : conn.state = .connected
  · have hupi : s.upAt i = some (conn.name, conn.messageCallback) := by
      rw [upAt_eq hi, TcpConnection.up_pos hstate]
    obtain ⟨a, c, ha, hin, -⟩ := h.tracks.up i _ _ hupi
    have hs' := hs'.trans (onClose_some (AssocMap.find_of_mem h.tracks.keys hin))
    rw [ha] at hupi
    exact h.tracks.closed hupi (congrArg mapClientSession hs') hup (congrArg sessions hs')
  · -- it never connected: its name is one of the transport's, which no entry has
    have hserver := h.connecting i conn hi (by cases hc : conn.state <;> simp_all)
    have hnone := h.find_none fun hmem => h.uuids _ hmem hserver
    have hs' := hs'.trans (onClose_none hnone)
    refine h.tracks.congr (by rw [hs']) (fun j => ?_) fun a => by rw [hs']
    rw [hup]
    split
    · next hj => rw [hj, upAt_eq hi, TcpConnection.up_neg hstate]; rfl
    · rfl

theorem disconnect (h : Inv ServerName es s) (hi : s.conns[i]? = some conn) (hconn : conn.state ≠ .disconnected)
    (hstep : s.step (.disconnected i) = .ok s') : Inv ServerName (es ++ [.disconnected i]) s' := by
  obtain ⟨hconns, -⟩ := disconnected_spec hi hstep
  refine h.kept rfl (h.tracks_disconnect hi hconn hstep) ?_ ?_
  · intro j p hj
    rw [upAt_set hi _ hconns] at hj
    split at hj
    · cases hj
    · exact ⟨p, hj, rfl⟩
  · intro j conn' hj hstate
    rw [hconns, getElem?_set_of hi] at hj
    split at hj
    · cases hj
      cases hstate
    · exact hj

theorem message (h : Inv ServerName es s) (hi : s.conns[i]? = some conn) (hconn : conn.state = .connected)
    {chunk : Bytes} (hstep : s.step (.message i chunk) = .ok s') :
    Inv ServerName (es ++ [.message i chunk]) s' := by
  have hupi : s.upAt i = some (conn.name, conn.messageCallback) := by
    rw [upAt_eq hi, TcpConnection.up_pos hconn]
  obtain ⟨a, c, ha, -, hc⟩ := h.tracks.up i _ _ hupi
  rw [step_message hi ha hc] at hstep
  obtain ⟨⟨⟨store, c'⟩, buf⟩, -, hs'⟩ := Except.map_eq_ok.1 hstep
  have hup : ∀ j, s'.upAt j = s.upAt j := by
    intro j
    rw [upAt_set hi _ (congrArg conns hs'.symm)]
    split
    · next hj => rw [hj, upAt_eq hi]; rfl
    · rfl
  have hlive : ∀ b, (s'.sessions.get b).isSome = (s.sessions.get b).isSome := by
    intro b
    rw [← hs', Heap.get_set (Heap.lt_next hc)]
    split
    · next hb => rw [hb, hc]; rfl
    · rfl
  refine h.kept rfl (h.tracks.congr (by rw [← hs']) hup hlive) ?_ ?_
  · intro j p hj
    exact ⟨p, hup j ▸ hj, rfl⟩
  · intro j conn' hj hstate
    rw [← hs', getElem?_set_of hi] at hj
    split at hj
    · cases hj
      cases hconn.symm.trans hstate
    · exact hj

theorem step (h : Inv ServerName es s) {e : Event} (hallowed : Allowed ServerName es s e)
    (hstep : s.step e = .ok s') : Inv ServerName (es ++ [e]) s' := by
  obtain ⟨hok, hnames⟩ := hallowed
  rcases e with name | ⟨i, uuid⟩ | i | ⟨i, chunk⟩
  · exact h.create hnames hstep
  · obtain ⟨conn, hi, hconn⟩ := hok
    exact h.connect hi hconn hnames hstep
  · obtain ⟨conn, hi, hconn⟩ := hok
    exact h.disconnect hi hconn hstep
  · obtain ⟨conn, hi, hconn⟩ := hok
    exact h.message hi hconn hstep

theorem start (ServerName : Bytes → Prop) (store : Store) : Inv ServerName [] { store := store } := by
  have hup : ∀ i, Instance.upAt { store := store } i = none := fun i => rfl
  refine ⟨⟨List.nodup_nil, ?_, nofun, ?_, ?_⟩, ?_, ?_, nofun⟩
  · intro i name callback hi
    cases (hup i).symm.trans hi
  · intro i j p q hi
    cases (hup i).symm.trans hi
  · intro a c hc
    cases hc
  · intro i conn hi
    cases hi
  · intro i p hi
    cases (hup i).symm.trans hi

end Inv

/-- In every state of every run the map has exactly the connections that are up, each under its name
and with the session it delivers to. -/
theorem sessions_track_connections {ServerName : Bytes → Prop} {store : Store} {es : List Event}
    (h : Runs (Allowed ServerName) store es s) : Tracks s := by
  suffices hinv : Inv ServerName es s from hinv.tracks
  induction h with
  | start => exact .start ServerName store
  | step _ hok hstep ih => exact ih.step hok hstep

/-- The names of two connections. -/
def twoNames (name : Bytes) : Prop := name = ascii "#1" ∨ name = ascii "#2"

def twoEvents : List Event := [.create (ascii "#1"), .create (ascii "#2"), .connected 0 (ascii "u"), .disconnected 1]

theorem twoEvents_runs : ∃ s, Runs (Allowed twoNames) {} twoEvents s ∧
    s.conns[0]? = some { name := ascii "u", state := .connected, messageCallback := some 0 } ∧
    s.sessions.get 0 = some {} ∧ s.mapClientSession = [(ascii "u", 0)] := by
  have hnew : DistinctNames twoNames [.create (ascii "#1"), .create (ascii "#2")] (.connected 0 (ascii "u")) := by
    constructor
    · unfold twoNames
      decide
    · decide
  have hstart : Runs (Allowed twoNames) {} [] { store := {} } := .start
  have hmade := (hstart.step (e := .create (ascii "#1")) ⟨trivial, Or.inl rfl⟩ rfl).step
    (e := .create (ascii "#2")) ⟨trivial, Or.inr rfl⟩ rfl
  have hup := hmade.step (e := .connected 0 (ascii "u")) ⟨⟨_, rfl, rfl⟩, hnew⟩ rfl
  exact ⟨_, hup.step (e := .disconnected 1) ⟨⟨_, rfl, by decide⟩, trivial⟩ rfl, rfl, rfl, rfl⟩

/-- One connection is up and has sent a byte, the other one was gone before it connected. -/
theorem sessions_track_connections_two :
    ∃ s, Runs (Allowed twoNames) {} (twoEvents ++ [.message 0 [1]]) s ∧ s.mapClientSession = [(ascii "u", 0)] ∧
      Tracks s := by
  obtain ⟨s, hrun, hconn, hsession, hmap⟩ := twoEvents_runs
  obtain ⟨⟨p, buf⟩, hrec, -⟩ := Except.map_eq_ok.1 ((receive_refines ClientSession.process
    (s.store, {}) Buffer.empty [1]).trans (Deframer.deliver_wait rfl))
  have hstep := (step_message hconn rfl hsession [1]).trans (congrArg (Except.map _) hrec)
  have hrun' := hrun.step (e := .message 0 [1]) ⟨⟨_, hconn, rfl⟩, trivial⟩ hstep
  exact ⟨_, hrun', hmap, sessions_track_connections hrun'⟩

end Instance

end IMServer
