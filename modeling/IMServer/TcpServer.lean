import IMServer.Connections
import IMServer.UserIds

/-!
# `TcpServer` and the names of its connections

The transport keeps its connections in `connections_`, under the name it gave them, and erases them
under the name they have when they are closed. By then the session's constructor has written another
one, so the first connection that is closed fails the assertion of `removeConnectionInLoop`.
-/

namespace IMServer

/-- The `TcpServer` that `IMServer::init` makes, with `OnConnection` for its connection callback. -/
structure TcpServer where
  ipPort : Bytes
  nextConnId : Int32 := 1
  connections : List (Bytes × Nat) := []
  im : Instance := {}

/-- `snprintf` into `char buf[64]`. -/
def snprintf64 (s : Bytes) : Bytes := s.take 63

def connName (ipPort : Bytes) (connId : Int32) : Bytes :=
  ascii "IMServer" ++ snprintf64 (ascii "-" ++ ipPort ++ ascii "#" ++ intToString connId.toInt)

inductive Transport
  | accept (uuid : Bytes)
  | close (i : Nat)
deriving DecidableEq

def Transport.isClose : Transport → Bool
  | accept _ => false
  | close _ => true

namespace TcpServer

/-- There is one loop, so `connectEstablished` is called on the spot. -/
def newConnection (t : TcpServer) (uuid : Bytes) : Except Fault TcpServer := do
  let conn := t.im.conns.length
  let name := connName t.ipPort t.nextConnId
  let im ← t.im.step (.create name)
  let im ← im.step (.connected conn uuid)
  return { t with
    nextConnId := t.nextConnId + 1
    connections := AssocMap.insert name conn t.connections
    im := im }

def removeConnectionInLoop (t : TcpServer) (conn : TcpConnection) : Except Fault TcpServer :=
  let n := (t.connections.filter (·.1 = conn.name)).length
  if n = 1 then .ok { t with connections := AssocMap.erase t.connections conn.name } else .error .assertion

def handleClose (t : TcpServer) (i : Nat) : Except Fault TcpServer :=
  match t.im.conns[i]? with
  | none => .error .nullPointer
  | some conn =>
    if conn.state = .connected then do
      let im ← t.im.step (.disconnected i)
      { t with im := im }.removeConnectionInLoop conn
    else .error .assertion

def step (t : TcpServer) : Transport → Except Fault TcpServer
  | .accept uuid => t.newConnection uuid
  | .close i => t.handleClose i

def start (ipPort : Bytes) (store : Store) : TcpServer := { ipPort := ipPort, im := { store := store } }

/-- `connections_` holds the connections that were accepted and are not closed, each once. -/
structure Exact (t : TcpServer) : Prop where
  once : (t.connections.map Prod.snd).Nodup
  only : ∀ i, i ∈ t.connections.map Prod.snd ↔ ∃ conn, t.im.conns[i]? = some conn ∧ conn.state = .connected

/-- No event aborts, and `connections_` is exact in every state. -/
def Consistent : TcpServer → List Transport → Prop
  | t, [] => t.Exact
  | t, e :: es => t.Exact ∧ ∃ t', t.step e = .ok t' ∧ Consistent t' es

/-- What the generator returns: 36 characters, hexadecimal digits and dashes. -/
def IsUuid (s : Bytes) : Prop :=
  s.length = 36 ∧ ∀ c ∈ s, c = 45 ∨ (48 ≤ c ∧ c ≤ 57) ∨ (97 ≤ c ∧ c ≤ 102)

/-- A connection holds a descriptor, one of the `2 ^ 31` that an `int` has room for, and so does the
acceptor: its socket and `idleFd_`. -/
def openConnections (t : TcpServer) : Nat := t.im.conns.countP (·.state = .connected)

def Occurs (t : TcpServer) : Transport → Prop
  | .accept uuid => IsUuid uuid ∧ t.openConnections < 2 ^ 31 - 2
  | .close i => ∃ conn, t.im.conns[i]? = some conn ∧ conn.state = .connected

def OccurAll : TcpServer → List Transport → Prop
  | _, [] => True
  | t, e :: es => t.Occurs e ∧ ∀ t', t.step e = .ok t' → OccurAll t' es

end TcpServer

/-! ### Names -/

theorem length_intToString {i : Int} (h : 0 ≤ i) (hi : i < 2 ^ 31) : (intToString i).length ≤ 10 := by
  have hdigits : (Nat.digits 10 i.natAbs).length ≤ 10 := (Nat.digits_length_le_iff (by decide) _).2 (by omega)
  rw [intToString, if_neg (by omega), uintToString]
  split
  · decide
  · simpa using hdigits

theorem connName_inj {ipPort : Bytes} (hip : ipPort.length ≤ 51) {i j : Int32} (hi : 0 ≤ i.toInt)
    (hj : 0 ≤ j.toInt) (h : connName ipPort i = connName ipPort j) : i = j := by
  have hlen : ∀ {k : Int32}, 0 ≤ k.toInt →
      snprintf64 (ascii "-" ++ ipPort ++ ascii "#" ++ intToString k.toInt) =
        ascii "-" ++ ipPort ++ ascii "#" ++ intToString k.toInt := by
    intro k hk
    have hdec := length_intToString hk (Int32.toInt_lt k)
    refine List.take_of_length_le ?_
    have hdash : (ascii "-").length = 1 := by decide
    have hhash : (ascii "#").length = 1 := by decide
    simp only [List.length_append, hdash, hhash]
    omega
  rw [connName, connName, hlen hi, hlen hj] at h
  have hdec := List.append_cancel_left (List.append_cancel_left h)
  rw [← atoi_intToString i, hdec, atoi_intToString]

theorem connName_ne_uuid {uuid : Bytes} (h : TcpServer.IsUuid uuid) (ipPort : Bytes) (i : Int32) :
    connName ipPort i ≠ uuid := by
  rintro rfl
  have hI : (73 : UInt8) ∈ connName ipPort i := List.mem_append_left _ (by decide)
  exact absurd (h.2 73 hI) (by decide)

/-! ### Runs without a close -/

namespace TcpServer
variable {t t' : TcpServer}

/-- Every connection is up, under a generated name, and has an entry under the name it was given. -/
structure AllUp (t : TcpServer) : Prop where
  count : t.nextConnId.toInt = t.im.conns.length + 1
  entries : t.connections.Perm
    ((List.range t.im.conns.length).map fun k => (connName t.ipPort (Int32.ofNat (k + 1)), k))
  up : ∀ (i : Nat) (conn : TcpConnection), t.im.conns[i]? = some conn → conn.state = .connected ∧ IsUuid conn.name

theorem newConnection_spec (t : TcpServer) (uuid : Bytes) :
    ∃ t' conn, t.newConnection uuid = .ok t' ∧ t'.ipPort = t.ipPort ∧ t'.nextConnId = t.nextConnId + 1 ∧
      t'.connections = AssocMap.insert (connName t.ipPort t.nextConnId) t.im.conns.length t.connections ∧
      t'.im.conns = t.im.conns ++ [conn] ∧ conn.state = .connected ∧ conn.name = uuid := by
  have hget : (t.im.conns ++ [({ name := connName t.ipPort t.nextConnId } : TcpConnection)])[t.im.conns.length]? =
      some { name := connName t.ipPort t.nextConnId } := List.getElem?_concat_length
  obtain ⟨im, him, hconns, -⟩ := Instance.connected_spec
    (s := { t.im with conns := t.im.conns ++ [{ name := connName t.ipPort t.nextConnId }] }) hget uuid
  simp only [List.set_append_right _ _ (Nat.le_refl _), Nat.sub_self, List.set_cons_zero] at hconns
  refine ⟨{ t with
    nextConnId := t.nextConnId + 1
    connections := AssocMap.insert (connName t.ipPort t.nextConnId) t.im.conns.length t.connections
    im := im }, _, ?_, rfl, rfl, rfl, hconns, rfl, rfl⟩
  rw [newConnection, Instance.step, Except.ok_bind, him]
  rfl

theorem ofNat_succ {n : Nat} {i : Int32} (h : i.toInt = n + 1) : Int32.ofNat (n + 1) = i := by
  refine Int32.toInt_inj.1 ?_
  rw [Int32.toInt_ofNat_of_lt (by have := Int32.toInt_lt i; omega), h]
  rfl

namespace AllUp

theorem exact (h : AllUp t) : Exact t := by
  have hperm : (t.connections.map Prod.snd).Perm (List.range t.im.conns.length) := by
    simpa [List.map_map, Function.comp_def] using h.entries.map Prod.snd
  refine ⟨hperm.nodup_iff.2 List.nodup_range, fun i => ?_⟩
  rw [hperm.mem_iff, List.mem_range]
  constructor
  · intro hi
    exact ⟨_, List.getElem?_eq_getElem hi, (h.up i _ (List.getElem?_eq_getElem hi)).1⟩
  · rintro ⟨conn, hi, -⟩
    exact (List.getElem?_eq_some_iff.1 hi).1

theorem openConnections_eq (h : AllUp t) : t.openConnections = t.im.conns.length := by
  refine List.countP_eq_length.2 fun conn hconn => ?_
  obtain ⟨i, hi⟩ := List.mem_iff_getElem?.1 hconn
  exact decide_eq_true (h.up i conn hi).1

theorem accept (h : AllUp t) (hip : t.ipPort.length ≤ 51) {uuid : Bytes} (huuid : IsUuid uuid)
    (hopen : t.openConnections < 2 ^ 31 - 2) :
    ∃ t', t.step (.accept uuid) = .ok t' ∧ t'.ipPort = t.ipPort ∧ AllUp t' := by
  obtain ⟨t', conn, hstep, hipPort, hnext, hentries, hconns, hstate, hname⟩ := newConnection_spec t uuid
  have hlen : t'.im.conns.length = t.im.conns.length + 1 := by rw [hconns]; simp
  have hcount := h.count
  have hroom : t.nextConnId.toInt < 2 ^ 31 - 1 := by
    rw [h.openConnections_eq] at hopen
    omega
  refine ⟨t', hstep, hipPort, ?_, ?_, ?_⟩
  · rw [hnext, Int32.toInt_succ hroom, hlen, hcount]
    push_cast
    rfl
  · -- the number is above all that were given, so the name is new
    have hkey : connName t.ipPort t.nextConnId ∉ t.connections.map Prod.fst := by
      intro hin
      obtain ⟨e, he, heq⟩ := List.mem_map.1 hin
      obtain ⟨k, hk, rfl⟩ := List.mem_map.1 (h.entries.mem_iff.1 he)
      have hlt := List.mem_range.1 hk
      have hkint : (Int32.ofNat (k + 1)).toInt = k + 1 := Int32.toInt_ofNat_of_lt (by omega)
      have hid := connName_inj hip (by omega) (by omega) heq
      rw [hid] at hkint
      omega
    rw [hentries, hlen, hipPort, List.range_succ, List.map_append]
    refine (AssocMap.insert_perm hkey _).trans ?_
    refine (h.entries.cons _).trans ?_
    rw [← ofNat_succ hcount]
    exact (List.perm_append_singleton _ _).symm
  · intro i conn' hi
    rw [hconns] at hi
    rcases Instance.of_getElem?_concat hi with hi | ⟨-, rfl⟩
    · exact h.up i conn' hi
    · exact ⟨hstate, hname ▸ huuid⟩

/-- The name of a connection that is up is none that `connections_` knows. -/
theorem close (h : AllUp t) {i : Nat} {conn : TcpConnection} (hi : t.im.conns[i]? = some conn)
    (hup : conn.state = .connected) : t.step (.close i) = .error .assertion := by
  have hfilter : t.connections.filter (·.1 = conn.name) = [] := by
    refine List.filter_eq_nil_iff.2 fun e he heq => ?_
    obtain ⟨k, -, rfl⟩ := List.mem_map.1 (h.entries.mem_iff.1 he)
    exact connName_ne_uuid (h.up i conn hi).2 _ _ (by simpa using heq)
  simp only [step, handleClose, hi, hup, if_true, Instance.step_disconnected hi, Except.ok_bind,
    removeConnectionInLoop, hfilter]
  rfl

end AllUp

theorem AllUp.consistent_iff {es : List Transport} (h : AllUp t) (hip : t.ipPort.length ≤ 51)
    (hes : OccurAll t es) : Consistent t es ↔ ∀ e ∈ es, e.isClose = false := by
  induction es generalizing t with
  | nil => exact iff_of_true h.exact nofun
  | cons e es ih =>
    obtain ⟨hoccurs, hrest⟩ := hes
    rw [Consistent, List.forall_mem_cons]
    rcases e with uuid | i
    · obtain ⟨t', hstep, hipPort, h'⟩ := h.accept hip hoccurs.1 hoccurs.2
      have ih := ih h' (hipPort ▸ hip) (hrest t' hstep)
      constructor
      · rintro ⟨-, t'', hstep', hcons⟩
        cases hstep.symm.trans hstep'
        exact ⟨rfl, ih.1 hcons⟩
      · rintro ⟨-, hes⟩
        exact ⟨h.exact, t', hstep, ih.2 hes⟩
    · -- the first close aborts
      obtain ⟨conn, hi, hup⟩ := hoccurs
      have habort := h.close hi hup
      refine iff_of_false ?_ ?_
      · rintro ⟨-, t', hstep, -⟩
        cases habort.symm.trans hstep
      · rintro ⟨hclose, -⟩
        cases hclose

theorem allUp_start (ipPort : Bytes) (store : Store) : AllUp (start ipPort store) :=
  ⟨rfl, List.Perm.refl _, nofun⟩

/-- Over every run from the start: `connections_` stays right exactly as long as nothing is closed. An
address with its port is never longer than the buffer of `snprintf` has room for. -/
theorem connections_consistent_iff {ipPort : Bytes} (hip : ipPort.length ≤ 51) (store : Store)
    {es : List Transport} (hes : OccurAll (start ipPort store) es) :
    Consistent (start ipPort store) es ↔ ∀ e ∈ es, e.isClose = false :=
  (allUp_start ipPort store).consistent_iff hip hes

/-- `127.0.0.1:9527` -/
def loopback : Bytes := ascii "127.0.0.1:9527"

def zeroUuid : Bytes := ascii "00000000-0000-0000-0000-000000000000"

theorem isUuid_zeroUuid : IsUuid zeroUuid := by
  refine ⟨rfl, List.forall_iff_forall_mem.1 ?_⟩
  decide

def oneAccepted : TcpServer :=
  match (start loopback {}).step (.accept zeroUuid) with
  | .ok t => t
  | .error _ => start loopback {}

theorem step_oneAccepted : (start loopback {}).step (.accept zeroUuid) = .ok oneAccepted := rfl

theorem occurAll_accept : OccurAll (start loopback {}) [.accept zeroUuid] :=
  ⟨⟨isUuid_zeroUuid, by decide⟩, fun _ _ => trivial⟩

theorem connections_consistent_one :
    OccurAll (start loopback {}) [.accept zeroUuid] ∧ Consistent (start loopback {}) [.accept zeroUuid] :=
  ⟨occurAll_accept, (connections_consistent_iff (by decide) {} occurAll_accept).2 (by decide)⟩

theorem accept_close_aborts :
    OccurAll (start loopback {}) [.accept zeroUuid, .close 0] ∧
      oneAccepted.step (.close 0) = .error .assertion ∧
      ¬ Consistent (start loopback {}) [.accept zeroUuid, .close 0] := by
  have habort : oneAccepted.step (.close 0) = .error .assertion := rfl
  refine ⟨⟨⟨isUuid_zeroUuid, by decide⟩, fun t' ht' => ?_⟩, habort, ?_⟩
  · cases step_oneAccepted.symm.trans ht'
    exact ⟨⟨_, rfl, rfl⟩, fun _ _ => trivial⟩
  · rintro ⟨-, t', ht', -, t'', hclose, -⟩
    cases step_oneAccepted.symm.trans ht'
    cases habort.symm.trans hclose

end TcpServer

end IMServer
