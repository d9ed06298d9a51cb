import Leasehold.Proofs.OneTable

/-! # The connection that a store uses

What a client on a server does with its connections, whatever the other end does: statements go only
where nothing is known to be wrong, a new connection is asked for only when something is, and a failed
attempt leaves everything as it was.

To speak of the past, the other end is made to write down what reaches it (`Peer.recorded`). The client
cannot tell the difference.
-/

namespace Leasehold.Postgres

variable {σ α : Type}

/-- Something that happens to the connections of a store. -/
inductive Incident where
  /-- A connection is asked for, and accepted under a number or not. -/
  | dialled (number : Option Nat)
  | greeted (number : Nat) (greeting : Greeting)
  | ran (number : Nat) (st : Statement) (outcome : Outcome)
  /-- The client learns that the connection in use has been closed. -/
  | hungUp
  deriving Repr, DecidableEq

/-- What has happened, the latest first. -/
abbrev History := List Incident

namespace Incident

/-- Leaves the connection in use as good as it was. -/
def Harmless : Incident → Prop
  | dialled _ => True
  | greeted _ g => g ≠ .welcomed
  | ran _ _ (.answered _) | ran _ _ .refused => True
  | ran _ _ .closed | ran _ _ .silent | hungUp => False

end Incident

/-- This connection was opened last, and since then no statement went without an answer and nobody
    learned that it has been closed. -/
def History.Trusts (h : History) (n : Nat) : Prop :=
  ∃ since before, h = since ++ .greeted n .welcomed :: before ∧ ∀ i ∈ since, i.Harmless

/-- An attempt to connect that came to nothing. -/
inductive History.Attempt : History → Prop where
  | unaccepted : Attempt [.dialled none]
  /-- The two ends do not agree on encryption. -/
  | unencrypted (n : Nat) : Attempt [.dialled (some n)]
  | unwelcome (n : Nat) {g : Greeting} (other : g ≠ .welcomed) :
      Attempt [.greeted n g, .dialled (some n)]

namespace Peer

/-- The same other end, which writes down what reaches it, the questions about encryption apart. -/
def recorded (p : Peer σ) : Peer (σ × History) where
  accept s :=
    let (number, peer) := p.accept s.1
    (number, peer, .dialled number :: s.2)
  encrypt n s :=
    let (answer, peer) := p.encrypt n s.1
    (answer, peer, s.2)
  greet n s :=
    let (greeting, peer) := p.greet n s.1
    (greeting, peer, .greeted n greeting :: s.2)
  run n st s :=
    let (outcome, peer) := p.run n st s.1
    (outcome, peer, .ran n st outcome :: s.2)

theorem recorded_run (p : Peer σ) (n : Nat) (st : Statement) (s : σ × History) :
    p.recorded.run n st s
      = ((p.run n st s.1).1, (p.run n st s.1).2, .ran n st (p.run n st s.1).1 :: s.2) := rfl

end Peer

namespace Line

/-- Asks for a connection. -/
def dial (p : Peer σ) (l : Line σ) : Line σ := { l with peer := (p.accept l.peer).2 }

/-- Sends the startup message on a connection and hears the greeting. -/
def start (p : Peer σ) (n : Nat) (l : Line σ) : Line σ :=
  { l.send n .startup with peer := (p.greet n l.peer).2 }

/-- Sends a statement on a connection and hears what comes of it. -/
def ask (p : Peer σ) (n : Nat) (st : Statement) (l : Line σ) : Line σ :=
  { l.send n (.statement st) with peer := (p.run n st l.peer).2 }

/-- The line without the record. -/
def plain (l : Line (σ × History)) : Line σ := ⟨l.peer.1, l.sent⟩

def history (l : Line (σ × History)) : History := l.peer.2

section

variable (p : Peer σ) (n : Nat) (st : Statement) (ssl : SslWish) (tls : TlsMode)
  (l : Line (σ × History))

@[simp] theorem plain_dial : (l.dial p.recorded).plain = l.plain.dial p := rfl

@[simp] theorem history_dial :
    (l.dial p.recorded).history = .dialled (p.accept l.plain.peer).1 :: l.history := rfl

@[simp] theorem history_start :
    (l.start p.recorded n).history = .greeted n (p.greet n l.plain.peer).1 :: l.history := rfl

@[simp] theorem history_ask :
    (l.ask p.recorded n st).history = .ran n st (p.run n st l.plain.peer).1 :: l.history := rfl

/-- The record makes no difference to what comes of encryption, and encryption leaves it alone. -/
theorem negotiate_recorded (limit : Duration) :
    let agreed := negotiate p.recorded ssl tls limit n l
    (agreed.1, agreed.2.plain) = negotiate p ssl tls limit n l.plain
      ∧ agreed.2.history = l.history := by
  unfold negotiate
  by_cases asks : asksToEncrypt ssl tls = true
  · simp only [asks, if_true]
    have heard : (p.recorded.encrypt n (l.send n .encryptionRequest).peer).1
        = (p.encrypt n (l.plain.send n .encryptionRequest).peer).1 := rfl
    rw [heard]
    cases (p.encrypt n (l.plain.send n .encryptionRequest).peer).1 <;> exact ⟨rfl, rfl⟩
  · simp only [asks]
    exact ⟨rfl, rfl⟩

end

end Line

/-! ## One attempt to connect -/

/-- What a greeting makes of an attempt to connect. -/
def Greeting.verdict (limit : Duration) (n : Nat) : Greeting → Except LeaseError Nat
  | .welcomed => .ok n
  | .refused => .error (failed "connect" serverError)
  | .closed => .error (failed "connect" connectionClosed)
  | .silent => .error (timedOut "connect" limit)

/-- The steps of an attempt that has an address and time. -/
theorem openConnection_eq (p : Peer σ) {url : String} {address : Address} {limit : Duration}
    (readable : Address.parse url = .ok address) (positive : limit.nanos ≠ 0) (tls : TlsMode)
    (l : Line σ) :
    openConnection p url tls limit l =
      match (p.accept l.peer).1 with
      | none => (.error (failed "connect" "error connecting to server"), l.dial p)
      | some n =>
        let agreed := negotiate p address.ssl tls limit n (l.dial p)
        match agreed.1 with
        | .error e => (.error e, agreed.2)
        | .ok () => ((p.greet n agreed.2.peer).1.verdict limit n, agreed.2.start p n) := by
  have arms (g : Greeting) (n : Nat) (l' : Line σ) : (match g with
      | .welcomed => (.ok n, l')
      | .refused => (.error (failed "connect" serverError), l')
      | .closed => (.error (failed "connect" connectionClosed), l')
      | .silent => (.error (timedOut "connect" limit), l')) = (g.verdict limit n, l') := by
    cases g <;> rfl
  simp only [openConnection, readable, positive, if_false]
  cases (p.accept l.peer).1 with
  | none => rfl
  | some n =>
    have dialled : ({ l with peer := (p.accept l.peer).2 } : Line σ) = l.dial p := rfl
    simp only [dialled]
    cases negotiate p address.ssl tls limit n (l.dial p) with
    | mk agreement l' =>
      cases agreement with
      | error e => rfl
      | ok => exact arms _ n _

/-- What came of an attempt to connect, and its history. -/
inductive Dialling : Except LeaseError Nat → History → Prop where
  | connected (n : Nat) : Dialling (.ok n) [.greeted n .welcomed, .dialled (some n)]
  | failed (e : LeaseError) {attempt : History} (came : attempt.Attempt) : Dialling (.error e) attempt

theorem dialling_greeted (limit : Duration) (n : Nat) (g : Greeting) :
    Dialling (g.verdict limit n) [.greeted n g, .dialled (some n)] := by
  cases g with
  | welcomed => exact .connected n
  | refused | closed | silent => exact .failed _ (.unwelcome n nofun)

theorem dialable_of_connected {p : Peer σ} {url : String} {tls : TlsMode} {limit : Duration} {n : Nat}
    {l l' : Line σ} (connected : openConnection p url tls limit l = (.ok n, l')) :
    (∃ address, Address.parse url = .ok address) ∧ limit.nanos ≠ 0 := by
  unfold openConnection at connected
  split at connected
  · cases connected
  · rename_i address readable
    split at connected
    · cases connected
    · rename_i positive
      exact ⟨⟨address, readable⟩, positive⟩

theorem openConnection_recorded (p : Peer σ) {url : String} {address : Address} {limit : Duration}
    (readable : Address.parse url = .ok address) (positive : limit.nanos ≠ 0) (tls : TlsMode)
    (l : Line (σ × History)) :
    ∃ result l' new, openConnection p.recorded url tls limit l = (result, l')
      ∧ openConnection p url tls limit l.plain = (result, l'.plain)
      ∧ l'.history = new ++ l.history ∧ Dialling result new := by
  rw [openConnection_eq p.recorded readable positive, openConnection_eq p readable positive]
  have asked : (p.recorded.accept l.peer).1 = (p.accept l.plain.peer).1 := rfl
  rw [asked]
  cases number : (p.accept l.plain.peer).1 with
  | none =>
    have written : (l.dial p.recorded).history = [.dialled none] ++ l.history := by simp [number]
    exact ⟨_, l.dial p.recorded, _, rfl, rfl, written, .failed _ .unaccepted⟩
  | some n =>
    obtain ⟨plainly, kept⟩ :=
      Line.negotiate_recorded p n address.ssl tls (l.dial p.recorded) limit
    have written : (negotiate p.recorded address.ssl tls limit n (l.dial p.recorded)).2.history
        = [.dialled (some n)] ++ l.history := by
      rw [kept]
      simp [number]
    rw [Line.plain_dial] at plainly
    simp only [← plainly]
    cases agreed : negotiate p.recorded address.ssl tls limit n (l.dial p.recorded) with
    | mk agreement l' =>
      rw [agreed] at written
      cases agreement with
      | error e => exact ⟨_, l', _, rfl, rfl, written, .failed e (.unencrypted n)⟩
      | ok =>
        refine ⟨_, l'.start p.recorded n, [.greeted n _, .dialled (some n)], rfl, rfl, ?_,
          dialling_greeted limit n _⟩
        rw [Line.history_start, written]
        rfl

/-! ## One statement -/

namespace Client

/-- Nothing is known to be wrong with the connection in use. -/
def InOrder (c : Client) : Prop := c.closed = false ∧ c.stale = false

/-- There is an address to connect to, and time to do so. -/
structure Dialable (c : Client) : Prop where
  readable : ∃ address, Address.parse c.url = .ok address
  positive : c.limit.nanos ≠ 0

/-- The client with a new connection. -/
def renewed (c : Client) (n : Nat) : Client := { c with current := n, closed := false, stale := false }

/-- What the client keeps in mind of what came of a statement. -/
def heed (c : Client) : Outcome → Client
  | .silent => { c with stale := true }
  | .closed => { c with closed := true }
  | .refused | .answered _ => c

/-- What a call makes of what came of its statement. -/
def verdict (c : Client) (st : Statement) (read : Result → Except String α) :
    Outcome → Except LeaseError α
  | .silent => .error (timedOut st.activity c.limit)
  | .refused => .error (failed st.activity serverError)
  | .closed => .error (failed st.activity connectionClosed)
  | .answered r => (read r).mapError (failed st.activity)

/-- One statement of a call: what the call gets, what the client knows afterwards, and what happened. -/
inductive Ran (c : Client) (st : Statement) (read : Result → Except String α) :
    Except LeaseError α → Client → History → Prop where
  /-- The connection in use is in order, and the statement goes out on it. -/
  | current (inOrder : c.InOrder) (o : Outcome) :
      Ran c st read (c.verdict st read o) (c.heed o) [.ran c.current st o]
  /-- The connection in use is not in order. A new one takes its place. -/
  | renewed (faulty : ¬ c.InOrder) (n : Nat) (o : Outcome) :
      Ran c st read (c.verdict st read o) ((c.renewed n).heed o)
        [.ran n st o, .greeted n .welcomed, .dialled (some n)]
  /-- There is no new one to be had. Nothing is sent, and everything stays as it was. -/
  | barred (faulty : ¬ c.InOrder) (e : LeaseError) {attempt : History} (came : attempt.Attempt) :
      Ran c st read (.error e) c attempt

theorem refreshConnection_inOrder (p : Peer σ) {c : Client} (inOrder : c.InOrder) (l : Line σ) :
    c.refreshConnection p l = (.ok c, l) := by
  simp [refreshConnection, inOrder.1, inOrder.2]

theorem refreshConnection_faulty (p : Peer σ) {c : Client} (faulty : ¬ c.InOrder) (l : Line σ) :
    c.refreshConnection p l = ((openConnection p c.url c.tls c.limit l).1.map c.renewed,
      (openConnection p c.url c.tls c.limit l).2) := by
  have bad : (c.closed || c.stale) = true := by
    simp only [InOrder, not_and, Bool.not_eq_false] at faulty
    cases closed : c.closed with
    | true => rfl
    | false => simp [faulty closed]
  simp only [refreshConnection, bad, if_true]
  cases result : openConnection p c.url c.tls c.limit l with
  | mk number l' => cases number <;> rfl

theorem run_of_connected (p : Peer σ) {c next : Client} {l l' : Line σ}
    (refreshed : c.refreshConnection p l = (.ok next, l')) (st : Statement)
    (read : Result → Except String α) :
    let o := (p.run next.current st l'.peer).1
    c.run p st read l = (next.verdict st read o, next.heed o, l'.ask p next.current st) := by
  simp only [run, refreshed]
  split
  · rename_i silent
    have outcome : (p.run next.current st l'.peer).1 = .silent := silent
    rw [outcome]
    rfl
  · rename_i refused
    have outcome : (p.run next.current st l'.peer).1 = .refused := refused
    rw [outcome]
    rfl
  · rename_i closed
    have outcome : (p.run next.current st l'.peer).1 = .closed := closed
    rw [outcome]
    rfl
  · rename_i r answered
    have outcome : (p.run next.current st l'.peer).1 = .answered r := answered
    rw [outcome]
    cases result : read r with
    | error reason =>
      simp only [verdict, result]
      rfl
    | ok v =>
      simp only [verdict, result]
      rfl

theorem run_of_unconnected (p : Peer σ) {c : Client} {e : LeaseError} {l l' : Line σ}
    (refreshed : c.refreshConnection p l = (.error e, l')) (st : Statement)
    (read : Result → Except String α) : c.run p st read l = (.error e, c, l') := by
  simp only [run, refreshed]

/-- Every statement of a call goes one of the three ways. -/
theorem run_recorded (p : Peer σ) {c : Client} (dialable : c.Dialable) (st : Statement)
    (read : Result → Except String α) (l : Line (σ × History)) :
    ∃ result c' l' new, c.run p.recorded st read l = (result, c', l')
      ∧ c.run p st read l.plain = (result, c', l'.plain)
      ∧ l'.history = new ++ l.history ∧ c.Ran st read result c' new := by
  by_cases inOrder : c.InOrder
  · have recorded := refreshConnection_inOrder p.recorded inOrder l
    have plainly := refreshConnection_inOrder p inOrder l.plain
    exact ⟨_, _, l.ask p.recorded c.current st, [.ran c.current st _],
      run_of_connected p.recorded recorded st read, run_of_connected p plainly st read, rfl,
      .current inOrder _⟩
  · obtain ⟨address, readable⟩ := dialable.readable
    obtain ⟨number, l', new, dialled, plainly, written, dialling⟩ :=
      openConnection_recorded p readable dialable.positive c.tls l
    have recorded := refreshConnection_faulty p.recorded inOrder l
    have plain := refreshConnection_faulty p inOrder l.plain
    rw [dialled] at recorded
    rw [plainly] at plain
    cases dialling with
    | connected n =>
      have written : (l'.ask p.recorded n st).history
          = [.ran n st (p.run n st l'.plain.peer).1, .greeted n .welcomed, .dialled (some n)]
            ++ l.history := by
        rw [Line.history_ask, written]
        rfl
      exact ⟨_, _, _, _, run_of_connected p.recorded recorded st read,
        run_of_connected p plain st read, written, .renewed inOrder n _⟩
    | failed e came =>
      exact ⟨_, _, l', new, run_of_unconnected p.recorded recorded st read,
        run_of_unconnected p plain st read, written, .barred inOrder e came⟩

theorem Ran.dialable {c c' : Client} {st : Statement} {read : Result → Except String α}
    {result : Except LeaseError α} {new : History} (ran : c.Ran st read result c' new)
    (dialable : c.Dialable) : c'.Dialable := by
  obtain ⟨readable, positive⟩ := dialable
  cases ran with
  | current _ o => cases o <;> exact ⟨readable, positive⟩
  | renewed _ n o => cases o <;> exact ⟨readable, positive⟩
  | barred => exact ⟨readable, positive⟩

theorem verdict_ok {c : Client} {st : Statement} {read : Result → Except String α} {o : Outcome}
    {v : α} (good : c.verdict st read o = .ok v) : ∃ r, o = .answered r ∧ read r = .ok v := by
  cases o with
  | refused | closed | silent => cases good
  | answered r =>
    refine ⟨r, rfl, ?_⟩
    cases result : read r with
    | error reason => simp [verdict, result, Except.mapError] at good
    | ok w => simpa [verdict, result, Except.mapError] using good

theorem Ran.answered {c c' : Client} {st : Statement} {read : Result → Except String α}
    {result : Except LeaseError α} {v : α} {new : History} (ran : c.Ran st read result c' new)
    (good : result = .ok v) :
    ∃ n r before, new = .ran n st (.answered r) :: before ∧ read r = .ok v := by
  cases ran with
  | current _ o | renewed _ _ o =>
    obtain ⟨r, rfl, value⟩ := verdict_ok good
    exact ⟨_, r, _, rfl, value⟩
  | barred => cases good

/-! ## One call -/

/-- A call: what it gets, what the client knows afterwards, and what happened. Only the question for
    the time may take a second statement, after the first one failed. -/
inductive Answers (c : Client) : Request → Except LeaseError Reply → Client → History → Prop where
  | once {r : Request} {answer : Except LeaseError Reply} {c' : Client} {new : History}
      (timeless : r ≠ .referenceTime) (ran : c.Ran (statement r) (reading r) answer c' new) :
      Answers c r answer c' new
  | ownWay {now : Int} {c' : Client} {new : History}
      (ran : c.Ran (.clock c.dialect) Result.singleInteger (.ok now) c' new) :
      Answers c .referenceTime (.ok (.time now)) c' new
  | otherWay {e : LeaseError} {answer : Except LeaseError Int} {c' c'' : Client} {new more : History}
      (first : c.Ran (.clock c.dialect) Result.singleInteger (.error e) c' new)
      (second : c'.Ran (.clock (otherWay c'.dialect)) Result.singleInteger answer c'' more) :
      Answers c .referenceTime (answer.map .time) c'' (more ++ new)

theorem perform_recorded (p : Peer σ) {c : Client} (dialable : c.Dialable) (r : Request)
    (l : Line (σ × History)) :
    ∃ answer c' l' new, c.perform p.recorded r l = (answer, c', l')
      ∧ c.perform p r l.plain = (answer, c', l'.plain)
      ∧ l'.history = new ++ l.history ∧ c.Answers r answer c' new := by
  by_cases timed : r = .referenceTime
  · obtain ⟨result, c', l', new, recorded, plainly, written, ran⟩ :=
      run_recorded p dialable (.clock c.dialect) Result.singleInteger l
    rw [timed]
    cases result with
    | ok now =>
      refine ⟨_, c', l', new, ?_, ?_, written, .ownWay ran⟩
      · simp only [perform, referenceTime, recorded]
      · simp only [perform, referenceTime, plainly]
    | error e =>
      obtain ⟨answer, c'', l'', more, again, plainlyAgain, writtenAgain, second⟩ :=
        run_recorded p (ran.dialable dialable) (.clock (otherWay c'.dialect)) Result.singleInteger l'
      have whole : l''.history = more ++ new ++ l.history := by
        rw [writtenAgain, written, List.append_assoc]
      refine ⟨_, c'', l'', _, ?_, ?_, whole, .otherWay ran second⟩
      · cases answer <;> simp only [perform, referenceTime, recorded, again, Except.map]
      · cases answer <;> simp only [perform, referenceTime, plainly, plainlyAgain, Except.map]
  · have single {τ : Type} (q : Peer τ) (k : Line τ) :
        c.perform q r k = c.run q (statement r) (reading r) k := by
      cases r <;> first | rfl | exact absurd rfl timed
    obtain ⟨answer, c', l', new, recorded, plainly, written, ran⟩ :=
      run_recorded p dialable (statement r) (reading r) l
    exact ⟨answer, c', l', new, (single _ l).trans recorded, (single p l.plain).trans plainly, written,
      .once timed ran⟩

theorem Answers.dialable {c c' : Client} {r : Request} {answer : Except LeaseError Reply}
    {new : History} (answers : c.Answers r answer c' new) (dialable : c.Dialable) : c'.Dialable := by
  cases answers with
  | once _ ran => exact ran.dialable dialable
  | ownWay ran => exact ran.dialable dialable
  | otherWay first second => exact second.dialable (first.dialable dialable)

theorem Answers.answered {c c' : Client} {r : Request} {reply : Reply} {answer : Except LeaseError Reply}
    {new : History} (answers : c.Answers r answer c' new) (good : answer = .ok reply) :
    ∃ n st result before, new = .ran n st (.answered result) :: before := by
  cases answers with
  | once _ ran =>
    obtain ⟨n, result, before, rfl, -⟩ := ran.answered good
    exact ⟨n, _, result, before, rfl⟩
  | ownWay ran =>
    obtain ⟨n, result, before, rfl, -⟩ := ran.answered rfl
    exact ⟨n, _, result, before, rfl⟩
  | @otherWay _ answer _ _ _ _ _ second =>
    cases answer with
    | error e => cases good
    | ok now =>
      obtain ⟨n, result, before, rfl, -⟩ := second.answered rfl
      exact ⟨n, _, result, _, rfl⟩

end Client

/-! ## What is known of the connections -/

namespace History

variable {h : History} {n k : Nat} {i : Incident}

theorem trusts_welcomed : Trusts (.greeted n .welcomed :: h) k ↔ k = n := by
  constructor
  · rintro ⟨since, before, split, harmless⟩
    cases since with
    | nil =>
      injection split with same
      injection same with same
      exact same.symm
    | cons i since =>
      injection split with same
      subst same
      exact absurd rfl (harmless _ List.mem_cons_self)
  · rintro rfl
    exact ⟨[], h, rfl, nofun⟩

theorem trusts_harmless (harmless : i.Harmless) : Trusts (i :: h) n ↔ h.Trusts n := by
  constructor
  · rintro ⟨since, before, split, rest⟩
    cases since with
    | nil =>
      injection split with same
      subst same
      exact absurd rfl harmless
    | cons j since =>
      injection split with _ split
      exact ⟨since, before, split, fun j member => rest j (List.mem_cons_of_mem _ member)⟩
  · rintro ⟨since, before, rfl, rest⟩
    exact ⟨i :: since, before, rfl, List.forall_mem_cons.mpr ⟨harmless, rest⟩⟩

theorem not_trusts (harmful : ¬ i.Harmless) (other : ∀ n, i ≠ .greeted n .welcomed) :
    ¬ Trusts (i :: h) n := by
  rintro ⟨since, before, split, harmless⟩
  cases since with
  | nil =>
    injection split with same
    exact other n same
  | cons j since =>
    injection split with same
    subst same
    exact harmful (harmless _ List.mem_cons_self)

end History

/-- After what has happened before, this may happen: statements go only to the connection that can be
    trusted, and a new connection is asked for only when there is none. -/
def Incident.Proper (earlier : History) : Incident → Prop
  | ran n _ _ => earlier.Trusts n
  | dialled _ => ∀ n, ¬ earlier.Trusts n
  | greeted _ _ | hungUp => True

/-- Everything that has happened was proper when it happened. -/
def History.Orderly (h : History) : Prop :=
  ∀ later i earlier, h = later ++ i :: earlier → i.Proper earlier

theorem History.Orderly.cons {h : History} {i : Incident} (orderly : h.Orderly) (proper : i.Proper h) :
    Orderly (i :: h) := by
  intro later j earlier split
  cases later with
  | nil =>
    injection split with same rest
    rw [← same, ← rest]
    exact proper
  | cons k later =>
    injection split with _ rest
    exact orderly later j earlier rest

namespace Client

/-- What the client knows of its connection agrees with what has happened. -/
structure Knows (c : Client) (h : History) : Prop where
  trusts : ∀ n, h.Trusts n ↔ c.InOrder ∧ n = c.current
  orderly : h.Orderly
  dialable : c.Dialable

variable {c c' : Client} {h new : History}

theorem Knows.untrusting (knows : c.Knows h) (faulty : ¬ c.InOrder) (n : Nat) : ¬ h.Trusts n :=
  fun trusts => faulty ((knows.trusts n).mp trusts).1

theorem Knows.harmless (knows : c.Knows h) {i : Incident} (harmless : i.Harmless) (proper : i.Proper h) :
    c.Knows (i :: h) where
  trusts n := (History.trusts_harmless harmless).trans (knows.trusts n)
  orderly := knows.orderly.cons proper
  dialable := knows.dialable

theorem Knows.attempt (knows : c.Knows h) (faulty : ¬ c.InOrder) (came : new.Attempt) :
    c.Knows (new ++ h) := by
  have dialled (number : Option Nat) : c.Knows (.dialled number :: h) :=
    knows.harmless trivial (knows.untrusting faulty)
  cases came with
  | unaccepted => exact dialled none
  | unencrypted n => exact dialled (some n)
  | unwelcome n other => exact (dialled (some n)).harmless other trivial

theorem Knows.renewed (knows : c.Knows h) (faulty : ¬ c.InOrder) (n : Nat) :
    (c.renewed n).Knows (.greeted n .welcomed :: .dialled (some n) :: h) where
  trusts _ := History.trusts_welcomed.trans ⟨fun same => ⟨⟨rfl, rfl⟩, same⟩, And.right⟩
  orderly :=
    have dialled : (Incident.dialled (some n)).Proper h := knows.untrusting faulty
    (knows.orderly.cons dialled).cons trivial
  dialable := ⟨knows.dialable.readable, knows.dialable.positive⟩

theorem Knows.faulty (knows : c.Knows h) {i : Incident} (harmful : ¬ i.Harmless)
    (other : ∀ n, i ≠ .greeted n .welcomed) (proper : i.Proper h) (faulty : ¬ c'.InOrder)
    (dialable : c'.Dialable) : c'.Knows (i :: h) where
  trusts _ :=
    ⟨fun trusts => absurd trusts (History.not_trusts harmful other), fun known => absurd known.1 faulty⟩
  orderly := knows.orderly.cons proper
  dialable := dialable

theorem Knows.hungUp (knows : c.Knows h) : c.noticeClosed.Knows (.hungUp :: h) :=
  knows.faulty id nofun trivial nofun ⟨knows.dialable.readable, knows.dialable.positive⟩

theorem Knows.ran (knows : c.Knows h) (inOrder : c.InOrder) (st : Statement) (o : Outcome) :
    (c.heed o).Knows (.ran c.current st o :: h) := by
  have proper : (Incident.ran c.current st o).Proper h := (knows.trusts c.current).mpr ⟨inOrder, rfl⟩
  cases o with
  | answered r => exact knows.harmless trivial proper
  | refused => exact knows.harmless trivial proper
  | closed => exact knows.faulty id nofun proper nofun ⟨knows.dialable.readable, knows.dialable.positive⟩
  | silent => exact knows.faulty id nofun proper nofun ⟨knows.dialable.readable, knows.dialable.positive⟩

theorem Ran.knows {st : Statement} {read : Result → Except String α} {result : Except LeaseError α}
    (ran : c.Ran st read result c' new) (knows : c.Knows h) : c'.Knows (new ++ h) := by
  cases ran with
  | current inOrder o => exact knows.ran inOrder st o
  | renewed faulty n o => exact (knows.renewed faulty n).ran ⟨rfl, rfl⟩ st o
  | barred faulty e came => exact knows.attempt faulty came

theorem Answers.knows {r : Request} {answer : Except LeaseError Reply}
    (answers : c.Answers r answer c' new) (knows : c.Knows h) : c'.Knows (new ++ h) := by
  cases answers with
  | once _ ran => exact ran.knows knows
  | ownWay ran => exact ran.knows knows
  | otherWay first second =>
    rw [List.append_assoc]
    exact second.knows (first.knows knows)

/-- A store that has been opened has a connection on which the version was told. -/
theorem knows_of_connect {p : Peer σ} {url : String} {tls : TlsMode} {limit : Duration} {peer : σ}
    {l : Line (σ × History)} (opened : connect p.recorded url tls limit ⟨(peer, []), []⟩ = (.ok c, l)) :
    c.Knows l.history := by
  unfold connect at opened
  split at opened
  · cases opened
  rename_i n l' connected
  obtain ⟨⟨address, readable⟩, positive⟩ := dialable_of_connected connected
  obtain ⟨result, l'', new, dialled, -, written, dialling⟩ :=
    openConnection_recorded p readable positive tls ⟨(peer, []), []⟩
  rw [connected] at dialled
  cases dialled
  cases dialling
  have known (v : Dialect) (r : Result) : (⟨url, tls, v, limit, n, false, false⟩ : Client).Knows
      (.ran n .version (.answered r) :: l'.history) := by
    have blank : (⟨url, tls, v, limit, 0, true, false⟩ : Client).Knows [] :=
      ⟨fun _ => ⟨by simp [History.Trusts], nofun⟩, by simp [History.Orderly],
        ⟨⟨address, readable⟩, positive⟩⟩
    rw [written]
    exact (blank.renewed nofun n).ran ⟨rfl, rfl⟩ .version (.answered r)
  cases outcome : p.run n .version l'.plain.peer with
  | mk o next =>
    have told : p.recorded.run n .version (l'.send n (.statement .version)).peer
        = (o, next, .ran n .version o :: l'.history) := by
      rw [Peer.recorded_run, show p.run n .version (l'.send n _).peer.1 = _ from outcome]
      rfl
    simp only [told] at opened
    cases o with
    | silent | refused | closed => cases opened
    | answered r =>
      simp only at opened
      split at opened
      · cases opened
      split at opened
      · cases opened
      · cases opened
        exact known _ r

end Client

/-! ## Calls, one after the other -/

/-- A store that has been opened, with the record of what has happened. -/
structure Opened (σ : Type) where
  client : Client
  line : Line (σ × History)

/-- What may happen to a store next. -/
inductive Use (σ : Type) where
  | call (r : Request)
  /-- The client learns that the connection in use has been closed. If it learns that within a call,
      the statement before has ended so. -/
  | hangUp
  /-- The other end is in this state by the next call. -/
  | meanwhile (peer : σ)

namespace Opened

def history (o : Opened σ) : History := o.line.history

/-- Makes a call. -/
def call (p : Peer σ) (o : Opened σ) (r : Request) : Except LeaseError Reply × Opened σ :=
  let (answer, client, line) := o.client.perform p.recorded r o.line
  (answer, ⟨client, line⟩)

def use (p : Peer σ) (o : Opened σ) : Use σ → Opened σ
  | .call r => (o.call p r).2
  | .hangUp => ⟨o.client.noticeClosed, { o.line with peer := (o.line.peer.1, .hungUp :: o.history) }⟩
  | .meanwhile peer => { o with line := { o.line with peer := (peer, o.history) } }

/-- A store after some uses of it. -/
def after (p : Peer σ) (o : Opened σ) (uses : List (Use σ)) : Opened σ := uses.foldl (use p) o

theorem call_answers (p : Peer σ) {o : Opened σ} (dialable : o.client.Dialable) (r : Request) :
    ∃ new, (o.call p r).2.history = new ++ o.history
      ∧ o.client.Answers r (o.call p r).1 (o.call p r).2.client new
      ∧ o.client.perform p r o.line.plain
        = ((o.call p r).1, (o.call p r).2.client, (o.call p r).2.line.plain) := by
  obtain ⟨answer, c', l', new, recorded, plainly, written, answers⟩ :=
    Client.perform_recorded p dialable r o.line
  have called : o.call p r = (answer, ⟨c', l'⟩) := by simp only [call, recorded]
  rw [called]
  exact ⟨new, written, answers, plainly⟩

theorem knows_use (p : Peer σ) {o : Opened σ} (knows : o.client.Knows o.history) (u : Use σ) :
    (o.use p u).client.Knows (o.use p u).history := by
  cases u with
  | hangUp => exact knows.hungUp
  | meanwhile peer => exact knows
  | call r =>
    obtain ⟨new, written, answers, -⟩ := call_answers p knows.dialable r
    exact written ▸ answers.knows knows

theorem knows_after (p : Peer σ) {o : Opened σ} (knows : o.client.Knows o.history)
    (uses : List (Use σ)) : (o.after p uses).client.Knows (o.after p uses).history := by
  induction uses generalizing o with
  | nil => exact knows
  | cons u uses ih => exact ih (knows_use p knows u)

/-- A store never uses a bad connection again, and recovers, whatever the other end does and however
    calls follow each other. Of everything that has happened: a statement went only to the connection
    that was opened last, while no statement had gone without an answer on it and the client knew of no
    closing; a new connection was asked for only when that was not so. The client knows of its
    connection exactly what has happened to it. And of the next call, whatever it asks for: each of its
    statements (one, or two for the time) goes one of the ways of `Client.Ran`; it returns something
    only if the server answered the last of them; and the record makes no difference. -/
theorem bad_connections_are_replaced (p : Peer σ) {url : String} {tls : TlsMode} {limit : Duration}
    {peer : σ} {c : Client} {l : Line (σ × History)}
    (opened : Client.connect p.recorded url tls limit ⟨(peer, []), []⟩ = (.ok c, l))
    (uses : List (Use σ)) :
    let o := after p ⟨c, l⟩ uses
    o.history.Orderly
      ∧ (∀ n, o.history.Trusts n ↔ o.client.InOrder ∧ n = o.client.current)
      ∧ ∀ r, ∃ new, (o.call p r).2.history = new ++ o.history
        ∧ o.client.Answers r (o.call p r).1 (o.call p r).2.client new
        ∧ (∀ reply, (o.call p r).1 = .ok reply →
          ∃ n st result before, new = .ran n st (.answered result) :: before)
        ∧ o.client.perform p r o.line.plain
          = ((o.call p r).1, (o.call p r).2.client, (o.call p r).2.line.plain) := by
  intro o
  have knows : o.client.Knows o.history := knows_after p (Client.knows_of_connect opened) uses
  refine ⟨knows.orderly, knows.trusts, ?_⟩
  intro r
  obtain ⟨new, written, answers, plainly⟩ := call_answers p knows.dialable r
  exact ⟨new, written, answers, fun reply good => answers.answered good, plainly⟩

/-- A refresh hangs, the next call finds no new connection, the one after that does. Then the server
    closes the connection, and the clock is asked in the other way on another one. -/
theorem bad_connections_are_replaced_outage :
    let url := "postgresql://host/leases"
    let working : Server := ⟨"PostgreSQL 16.2", 7, none, [], 0⟩
    let troubled : Server := ⟨"PostgreSQL 16.2", 7, some .empty,
      [⟨.refresh, .hang, 1⟩, ⟨.connect, .error, 1⟩, ⟨.clock .postgresql, .close, 1⟩], 1⟩
    let client : Client := ⟨url, .disable, .postgresql, standardLimit, 1, false, false⟩
    let store : Opened Server := ⟨client,
      (Client.connect Server.asPeer.recorded url .disable standardLimit ⟨(working, []), []⟩).2⟩
    let o := store.after Server.asPeer [.meanwhile troubled, .call (.refreshOwned "a" 9),
      .call .listAll, .call .listAll, .call .referenceTime]
    o.history =
        [.ran 4 (.clock .cockroachdb) (.answered (.rows [[.integer 7]])), .greeted 4 .welcomed,
          .dialled (some 4), .ran 3 (.clock .postgresql) .closed, .ran 3 .list (.answered (.rows [])),
          .greeted 3 .welcomed, .dialled (some 3), .greeted 2 .refused, .dialled (some 2),
          .ran 1 (.refresh "a" 9) .silent,
          .ran 1 .version (.answered (.rows [[.text "PostgreSQL 16.2"]])), .greeted 1 .welcomed,
          .dialled (some 1)]
      ∧ o.history.Orderly := by
  intro url working troubled client store o
  have told : (Client.connect Server.asPeer.recorded url .disable standardLimit
      ⟨(working, []), []⟩).1.toOption = some client := by decide +kernel
  have opened : Client.connect Server.asPeer.recorded url .disable standardLimit ⟨(working, []), []⟩
      = (.ok client, store.line) := by
    cases answer : (Client.connect Server.asPeer.recorded url .disable standardLimit
      ⟨(working, []), []⟩).1 with
    | error e =>
      rw [answer] at told
      cases told
    | ok c =>
      rw [answer] at told
      cases told
      exact Prod.ext answer rfl
  exact ⟨by decide +kernel, (bad_connections_are_replaced Server.asPeer opened _).1⟩

end Opened

end Leasehold.Postgres
