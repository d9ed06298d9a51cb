import Leasehold.Postgres.Session
import Leasehold.Proofs.Holdings

/-! # One table behind three stores

A table inside the process, an SQLite database and a client of a PostgreSQL server are asked the
same requests in a row. Two of them insert claimed names one after another, the third by one
statement; still they cannot be told apart, except by the order in which they list rows.

`Adapter.Implements` says what a store has to do for that, call by call, and `Implements.exchanges`
carries it through a whole sequence of calls.
-/

namespace Leasehold

namespace Table

theorem freshRows_congr {taken taken' : List String} (same : ∀ n, n ∈ taken ↔ n ∈ taken')
    (query : List Record) : freshRows taken query = freshRows taken' query := by
  induction query generalizing taken taken' with
  | nil => rfl
  | cons r query ih =>
    have first : taken.contains r.name = taken'.contains r.name := by
      rw [Bool.eq_iff_iff, List.contains_iff_mem, List.contains_iff_mem]
      exact same r.name
    have later : ∀ n, n ∈ r.name :: taken ↔ n ∈ r.name :: taken' := by
      intro n
      rw [List.mem_cons, List.mem_cons, same n]
    simp only [freshRows, first, ih same, ih later]

/-- A query that inserts rows in one statement inserts them one after another. -/
theorem insertQuery_eq_foldl (t : Table) (query : List Record) :
    t.insertQuery query = query.foldl insertOrIgnore t := by
  induction query generalizing t with
  | nil => simp [insertQuery, freshRows]
  | cons r query ih =>
    rw [List.foldl_cons, ← ih]
    have key : t.hasKey r.name = (t.rows.map (·.name)).contains r.name := by
      rw [Bool.eq_iff_iff, List.contains_iff_mem]
      simp [hasKey]
    by_cases taken : t.hasKey r.name = true
    · rw [insertOrIgnore, if_pos taken]
      simp only [insertQuery, freshRows, ← key, taken, if_true]
    · have grown : ∀ n, n ∈ r.name :: t.rows.map (·.name) ↔ n ∈ (t.rows ++ [r]).map (·.name) := by
        intro n
        simp [or_comm]
      rw [insertOrIgnore, if_neg taken]
      simp only [insertQuery, freshRows, ← key, taken, if_false, freshRows_congr grown,
        Bool.false_eq_true, List.append_assoc, List.cons_append, List.nil_append]

theorem insertQuery_claim (t : Table) (names : List String) (owner : String) (expiration : Int) :
    t.insertQuery (names.map fun name => ⟨name, owner, expiration⟩)
      = SqliteDatabase.claim t names owner expiration := by
  rw [insertQuery_eq_foldl, List.foldl_map]
  rfl

end Table

/-! ## Calls in a row -/

/-- What a store answers to a call, and the rows that it holds afterwards. -/
structure Exchange where
  answer : DirectAnswer
  rows : List Record
  deriving Repr, DecidableEq

/-- A kind of store, as its users see it. -/
structure Adapter (σ : Type) where
  answer : σ → Request → DirectAnswer × σ
  rows : σ → List Record

/-- The exchanges of a sequence of calls. -/
def Adapter.exchanges {σ : Type} (a : Adapter σ) (s : σ) : List Request → List Exchange
  | [] => []
  | r :: calls =>
    let (answer, s) := a.answer s r
    ⟨answer, a.rows s⟩ :: a.exchanges s calls

/-- The stores of managers; `now` is what their clock shows. -/
def Backend.adapter (now : Int) : Adapter Backend where
  answer b r := b.direct now (.request r)
  rows := Backend.rows

/-- A client together with its server. -/
def Postgres.Session.adapter : Adapter Postgres.Session where
  answer s r := s.stepAnswer (.call (.request r))
  rows s := (s.line.peer.table.map (·.rows)).getD []

/-- Two replies that differ at most in the order of a list. -/
inductive Reply.Alike : Reply → Reply → Prop
  | same (r : Reply) : Alike r r
  | names {list list' : List String} : list.Perm list' → Alike (.names list) (.names list')
  | records {rows rows' : List Record} : rows.Perm rows' → Alike (.records rows) (.records rows')

/-- Two calls that are both answered, with the same reply and the same rows left behind. -/
inductive Exchange.Alike : Exchange → Exchange → Prop
  | replied {reply reply' : Reply} {rows rows' : List Record} :
      reply.Alike reply' → rows.Perm rows' → Alike ⟨.reply reply, rows⟩ ⟨.reply reply', rows'⟩

/-- Calls that find the table where it should be: whoever drops it creates it again at once. The
    clocks of different stores are not compared. -/
structure Orderly (calls : List Request) : Prop where
  recreated : calls.IsChain fun r next => r = .dropSchema → next = .ensureSchema
  timeless : .referenceTime ∉ calls

theorem Orderly.tail {r : Request} {calls : List Request} (orderly : Orderly (r :: calls)) :
    Orderly calls where
  recreated := orderly.recreated.tail
  timeless later := orderly.timeless (List.mem_cons_of_mem r later)

namespace Adapter

variable {σ : Type}

/-- A store that mirrors a table inside the process: `mirrors` relates the two, and `present` tells
    whether the store has got its table. -/
structure Implements (a : Adapter σ) (now : Int) (mirrors : σ → MemoryStore → Prop)
    (present : σ → Prop) : Prop where
  rows_eq : ∀ {s m}, mirrors s m → a.rows s = m.toList
  answer_eq : ∀ {s m r}, mirrors s m → present s ∨ r = .ensureSchema → r ≠ .referenceTime →
    (a.answer s r).1 = .reply (m.perform now r).1
  mirrors_next : ∀ {s m r}, mirrors s m → present s ∨ r = .ensureSchema → r ≠ .referenceTime →
    mirrors (a.answer s r).2 (m.perform now r).2
  present_next : ∀ {s m r}, mirrors s m → present s ∨ r = .ensureSchema → r ≠ .referenceTime →
    r ≠ .dropSchema → present (a.answer s r).2

/-- A store that mirrors a table inside the process has the same exchanges. -/
theorem Implements.exchanges_eq {a : Adapter σ} {now : Int} {mirrors : σ → MemoryStore → Prop}
    {present : σ → Prop} (implements : a.Implements now mirrors present) {calls : List Request}
    (orderly : Orderly calls) {s : σ} {m : MemoryStore} (related : mirrors s m)
    (ready : ∀ r ∈ calls.head?, present s ∨ r = .ensureSchema) :
    a.exchanges s calls = (Backend.adapter now).exchanges (.memory m) calls := by
  induction calls generalizing s m with
  | nil => rfl
  | cons r calls ih =>
    have usable : present s ∨ r = .ensureSchema := ready r rfl
    have timeless : r ≠ .referenceTime := by
      rintro rfl
      exact orderly.timeless List.mem_cons_self
    have next := implements.mirrors_next related usable timeless
    have later : ∀ q ∈ calls.head?, present (a.answer s r).2 ∨ q = .ensureSchema := by
      intro q first
      by_cases dropped : r = .dropSchema
      · cases calls with
        | nil => simp at first
        | cons q' calls =>
          obtain rfl : q' = q := by simpa using first
          exact .inr ((List.isChain_cons_cons.mp orderly.recreated).1 dropped)
      · exact .inl (implements.present_next related usable timeless dropped)
    have tail := ih orderly.tail next later
    simp only [Adapter.exchanges]
    rw [tail, implements.answer_eq related usable timeless, implements.rows_eq next]
    rfl

end Adapter

namespace Backend

theorem alike_memory (now : Int) (m : MemoryStore) (calls : List Request) :
    List.Forall₂ Exchange.Alike ((adapter now).exchanges (.memory m) calls)
      ((adapter now).exchanges (.memory m) calls) := by
  induction calls generalizing m with
  | nil => exact .nil
  | cons r calls ih => exact .cons (.replied (.same _) (.refl _)) (ih (m.perform now r).2)

theorem perform_timeless (m : MemoryStore) {r : Request} (timeless : r ≠ .referenceTime)
    (now now' : Int) : m.perform now r = m.perform now' r := by
  cases r <;> first | rfl | exact absurd rfl timeless

/-- What a store of managers mirrors. -/
def Mirrors (b : Backend) (m : MemoryStore) : Prop := b.Keyed ∧ b.asMemory = m

theorem mirrors_of_ok {b : Backend} {m : MemoryStore} (related : b.Mirrors m) {now : Int}
    {r : Request} {reply : Reply} (answered : (b.perform now r).1 = .ok reply) :
    (b.direct now (.request r)).1 = .reply (m.perform now r).1
      ∧ (b.direct now (.request r)).2.Mirrors (m.perform now r).2 := by
  obtain ⟨keyed, rfl⟩ := related
  have same := perform_asMemory keyed answered
  have step : b.direct now (.request r) = (.reply reply, (b.perform now r).2) := by
    simp only [direct]
    rw [← Prod.eta (b.perform now r), answered]
  rw [step]
  constructor
  · exact congrArg DirectAnswer.reply same.1
  · exact ⟨keyed_perform keyed now r, same.2⟩

theorem answers {b : Backend} {r : Request} (usable : b.isReady = true ∨ r = .ensureSchema)
    (now : Int) : ∃ reply, (b.perform now r).1 = .ok reply := by
  rcases usable with ready | rfl
  · exact perform_ok ready now r
  · cases b <;> exact ⟨_, rfl⟩

theorem direct_snd (b : Backend) (now : Int) (r : Request) :
    (b.direct now (.request r)).2 = (b.perform now r).2 := by
  simp only [direct]
  split <;> simp_all

theorem implements (now now' : Int) :
    (adapter now).Implements now' Mirrors (·.isReady = true) where
  rows_eq := by
    rintro b m ⟨-, rfl⟩
    exact rows_eq_toList b
  answer_eq := by
    intro b m r related usable timeless
    obtain ⟨reply, answered⟩ := answers usable now
    rw [perform_timeless m timeless now' now]
    exact (mirrors_of_ok related answered).1
  mirrors_next := by
    intro b m r related usable timeless
    obtain ⟨reply, answered⟩ := answers usable now
    rw [perform_timeless m timeless now' now]
    exact (mirrors_of_ok related answered).2
  present_next := by
    intro b m r _ usable _ keeps
    change (b.direct now (.request r)).2.isReady = true
    rw [direct_snd]
    rcases usable with ready | rfl
    · exact isReady_perform ready now keeps
    · exact isReady_ensureSchema b now

end Backend

namespace Postgres

theorem texts_rows (records : List Record) :
    (Result.rows (records.map fun r => [.text r.name])).texts = .ok (records.map (·.name)) := by
  rw [Result.texts, Result.rowList, List.mapM_map]
  exact List.mapM_pure

theorem records_rows (records : List Record) :
    (Result.rows (records.map Server.toCells)).records = .ok records := by
  rw [Result.records, Result.rowList, List.mapM_map]
  exact List.mapM_pure.trans (congrArg Except.ok (List.map_id records))

/-- The statement that a request is put into. For the time of the server's clock there may be a
    second one. -/
def statement : Request → Statement
  | .referenceTime => .clock .postgresql
  | .ensureSchema => .createTable
  | .dropSchema => .dropTable
  | .deleteExpired now => .deleteExpired now
  | .refreshOwned owner expiration => .refresh owner expiration
  | .claimAbsent names owner expiration => .claim names owner expiration
  | .selectOwned owner => .selectOwned owner
  | .deleteOwned name owner => .deleteOwned name owner
  | .listAll => .list

/-- What the result of the statement tells about the request. -/
def reading : Request → Result → Except String Reply
  | .referenceTime, result => result.singleInteger.map .time
  | .ensureSchema, _ | .dropSchema, _ | .claimAbsent _ _ _, _ => .ok .done
  | .deleteExpired _, result | .refreshOwned _ _, result => .ok (.count result.rowCount)
  | .selectOwned _, result => result.texts.map .names
  | .deleteOwned _ _, result => .ok (.deleted (0 < result.rowCount))
  | .listAll, result => result.records.map .records

/-- On a server that has the table, the statement of a request does what a database does. -/
theorem Server.execute_statement {s : Server} {t : Table} (present : s.table = some t)
    {r : Request} (timeless : r ≠ .referenceTime) (now : Int) :
    ∃ result table reply, s.execute (statement r) = (some result, table)
      ∧ reading r result = .ok reply
      ∧ SqliteDatabase.perform ⟨some t⟩ now r = (.ok reply, ⟨table⟩) := by
  cases r with
  | referenceTime => exact absurd rfl timeless
  | ensureSchema => exact ⟨_, _, _, rfl, rfl, by rw [present]; rfl⟩
  | dropSchema => exact ⟨_, _, _, rfl, rfl, rfl⟩
  | claimAbsent names owner expiration =>
    have claimed := Table.insertQuery_claim t names owner expiration
    simp only [statement, Server.execute, present, claimed]
    exact ⟨_, _, _, rfl, rfl, rfl⟩
  | selectOwned owner =>
    simp only [statement, Server.execute, present]
    refine ⟨_, _, _, rfl, ?_, rfl⟩
    rw [reading, texts_rows]
    rfl
  | listAll =>
    simp only [statement, Server.execute, present]
    refine ⟨_, _, _, rfl, ?_, rfl⟩
    rw [reading, records_rows]
    rfl
  | deleteExpired | refreshOwned | deleteOwned =>
    simp only [statement, Server.execute, present]
    exact ⟨_, _, _, rfl, rfl, rfl⟩

theorem Server.run_of_execute {s : Server} (faultless : s.faults = []) {st : Statement}
    {result : Result} {table : Option Table} (executed : s.execute st = (some result, table)) :
    s.run st = (.answered result, { s with table }) := by
  have same : { s with faults := [] } = s := by
    rw [← faultless]
  simp only [Server.run, faultless, Server.takeFault, same, executed]

/-- A client that is connected sends a statement once and reads the answer to it. -/
theorem Client.run_of_answered {σ : Type} {p : Peer σ} {c : Client} (connected : c.closed = false)
    (answered : c.stale = false) {l : Line σ} {st : Statement} {result : Result} {peer : σ}
    (ran : p.run c.current st l.peer = (.answered result, peer)) {α : Type}
    {read : Result → Except String α} {v : α} (readable : read result = .ok v) :
    c.run p st read l = (.ok v, c, ⟨peer, (c.current, .statement st) :: l.sent⟩) := by
  simp only [Client.run, Client.refreshConnection, connected, answered, Bool.or_self,
    Bool.false_eq_true, if_false, Line.send, ran, readable]

theorem negotiate_keeps {σ : Type} {p : Peer σ} {P : σ → Prop}
    (encrypts : ∀ n s, P s → P (p.encrypt n s).2) (ssl : SslWish) (tls : TlsMode) (limit : Duration)
    (n : Nat) {l : Line σ} (first : P l.peer) : P (negotiate p ssl tls limit n l).2.peer := by
  unfold negotiate
  split
  · have settled : P (p.encrypt n (l.send n .encryptionRequest).peer).2 := encrypts n _ first
    dsimp only
    split <;> exact settled
  · exact first

/-- What connections and statements leave alone at the other end is the same once a store has been
    opened. -/
theorem connect_keeps {σ : Type} {p : Peer σ} {P : σ → Prop}
    (accepts : ∀ s, P s → P (p.accept s).2) (encrypts : ∀ n s, P s → P (p.encrypt n s).2)
    (greets : ∀ n s, P s → P (p.greet n s).2) (answers : ∀ n s, P s → P (p.run n .version s).2)
    (url : String) (tls : TlsMode) (limit : Duration) {l : Line σ} (first : P l.peer) :
    P (Client.connect p url tls limit l).2.peer := by
  have opened : P (openConnection p url tls limit l).2.peer := by
    unfold openConnection
    split
    · exact first
    · split
      · exact first
      · have accepted := accepts _ first
        dsimp only
        split
        · exact accepted
        · rename_i address _ _ _ n _
          have settled := negotiate_keeps encrypts address.ssl tls limit n
            (l := { l with peer := (p.accept l.peer).2 }) accepted
          split
          · rename_i refused
            rw [refused] at settled
            exact settled
          · rename_i agreed
            rw [agreed] at settled
            split <;> exact greets _ _ settled
  unfold Client.connect
  split
  · rename_i failed
    rw [failed] at opened
    exact opened
  · rename_i n next welcomed
    rw [welcomed] at opened
    have answered : P (p.run n .version (next.send n (.statement .version)).peer).2 :=
      answers n _ opened
    grind

theorem connect_fresh {σ : Type} {p : Peer σ} {url : String} {tls : TlsMode} {limit : Duration}
    {l : Line σ} {c : Client} (connected : (Client.connect p url tls limit l).1 = .ok c) :
    c.closed = false ∧ c.stale = false := by
  unfold Client.connect at connected
  grind

namespace Session

/-- The connection works, and so does the server. -/
structure Usable (s : Session) : Prop where
  connected : s.client.closed = false
  answered : s.client.stale = false
  faultless : s.line.peer.faults = []

/-- The server's table as a database of its own. -/
def database (s : Session) : SqliteDatabase := ⟨s.line.peer.table⟩

/-- A session with a server that works begins in order, and finds the server's table as it was. -/
theorem usable_of_start {server : Server} (faultless : server.faults = []) {url : String}
    {tls : TlsMode} {limit : Duration} {session : Session}
    (opened : (start server url tls limit).2 = .ok session) :
    session.Usable ∧ session.database = ⟨server.table⟩ := by
  have kept := connect_keeps (p := Server.asPeer)
    (P := fun peer => peer.faults = [] ∧ peer.table = server.table)
    (by
      intro s same
      exact same)
    (by
      intro n s same
      exact same)
    (by
      rintro n ⟨_, _, _, faults, _⟩ ⟨rfl, same⟩
      exact ⟨rfl, same⟩)
    (by
      rintro n s ⟨none_, same⟩
      have ran : s.run .version = _ := Server.run_of_execute none_ rfl
      simp only [Server.asPeer, ran]
      exact ⟨none_, same⟩)
    url tls limit (l := ⟨server, []⟩) ⟨faultless, rfl⟩
  unfold start at opened
  dsimp only at opened
  cases result : (Client.connect Server.asPeer url tls limit ⟨server, []⟩).1 with
  | error e =>
    rw [result] at opened
    cases opened
  | ok c =>
    rw [result] at opened
    cases opened
    obtain ⟨connected, answered⟩ := connect_fresh result
    exact ⟨⟨connected, answered, kept.1⟩, congrArg SqliteDatabase.mk kept.2⟩

/-- A client on a server that works is answered as it would be by a database. -/
theorem answer_eq_database {s : Session} (usable : s.Usable) {r : Request}
    (present : s.database.table.isSome ∨ r = .ensureSchema) (timeless : r ≠ .referenceTime)
    (now : Int) :
    let next := s.stepAnswer (.call (.request r))
    (next.1, Backend.sqlite next.2.database) = (Backend.sqlite s.database).direct now (.request r)
      ∧ next.2.Usable := by
  intro next
  obtain ⟨result, table, reply, executed, readable, performed⟩ :
      ∃ result table reply, s.line.peer.execute (statement r) = (some result, table)
        ∧ reading r result = .ok reply ∧ s.database.perform now r = (.ok reply, ⟨table⟩) := by
    rcases present with there | rfl
    · obtain ⟨t, there⟩ := Option.isSome_iff_exists.mp there
      have same : s.database = ⟨some t⟩ := congrArg SqliteDatabase.mk there
      rw [same]
      exact Server.execute_statement there timeless now
    · exact ⟨_, _, _, rfl, rfl, rfl⟩
  have ran := Client.run_of_answered usable.connected usable.answered
    (p := Server.asPeer) (l := s.line) (Server.run_of_execute usable.faultless executed) readable
  have asked : s.client.perform Server.asPeer r s.line
      = s.client.run Server.asPeer (statement r) (reading r) s.line := by
    cases r <;> first | rfl | exact absurd rfl timeless
  have stepped : next = (.reply reply, ⟨s.client, { s.line.peer with table },
      (s.client.current, .statement (statement r)) :: s.line.sent⟩) := by
    simp only [next, stepAnswer, asked, ran]
  have kept : s.database.perform now r = (.ok reply, next.2.database) := by
    rw [performed, stepped]
    rfl
  constructor
  · simp only [Backend.direct, Backend.perform, kept]
    rw [stepped]
  · rw [stepped]
    exact ⟨usable.connected, usable.answered, usable.faultless⟩

/-- What a session mirrors. -/
def Mirrors (s : Session) (m : MemoryStore) : Prop :=
  s.Usable ∧ (Backend.sqlite s.database).Mirrors m

theorem implements (now : Int) :
    adapter.Implements now Mirrors (·.database.table.isSome = true) where
  rows_eq := by
    rintro s m ⟨-, related⟩
    rw [← (Backend.implements now now).rows_eq related]
    simp only [adapter, Backend.adapter, Backend.rows, database]
    cases s.line.peer.table <;> rfl
  answer_eq := by
    rintro s m r ⟨usable, related⟩ present timeless
    have step := (answer_eq_database usable present timeless now).1
    exact (congrArg Prod.fst step).trans ((Backend.implements now now).answer_eq related present timeless)
  mirrors_next := by
    rintro s m r ⟨usable, related⟩ present timeless
    obtain ⟨step, next⟩ := answer_eq_database usable present timeless now
    have mirrored := (Backend.implements now now).mirrors_next related present timeless
    have same : ((Backend.adapter now).answer (.sqlite s.database) r).2
        = .sqlite (adapter.answer s r).2.database := (congrArg Prod.snd step).symm
    rw [same] at mirrored
    exact ⟨next, mirrored⟩
  present_next := by
    rintro s m r ⟨usable, related⟩ present timeless keeps
    have step := (answer_eq_database usable present timeless now).1
    have made := (Backend.implements now now).present_next related present timeless keeps
    have same : ((Backend.adapter now).answer (.sqlite s.database) r).2
        = .sqlite (adapter.answer s r).2.database := (congrArg Prod.snd step).symm
    rw [same] at made
    exact made

end Session

end Postgres

theorem Backend.mirrors_empty {b : Backend} (vacant : b.rows = []) : b.Mirrors .empty := by
  have empty : b.asMemory = .empty := by
    rw [rows_eq_toList] at vacant
    exact congrArg MemoryStore.mk (List.map_eq_nil_iff.mp vacant)
  refine ⟨?_, empty⟩
  rw [Backend.Keyed, empty]
  exact MemoryStore.keyed_empty

theorem Postgres.Session.exchanges_eq {session : Postgres.Session} (usable : session.Usable)
    (bare : (Backend.sqlite session.database).rows = []) {calls : List Request}
    (orderly : Orderly (.ensureSchema :: calls)) (now : Int) :
    Postgres.Session.adapter.exchanges session (.ensureSchema :: calls)
      = (Backend.adapter now).exchanges .freshMemory (.ensureSchema :: calls) := by
  refine (Postgres.Session.implements now).exchanges_eq orderly ⟨usable, Backend.mirrors_empty bare⟩ ?_
  intro r head
  exact .inr (by simpa using head.symm)

/-- Three stores that start without rows give the same answers to the same calls, up to the order of
    lists, and hold the same rows after each of them: a table inside the process, an SQLite
    database, and a client that has been opened on a PostgreSQL server that works. -/
theorem three_stores_one_table {database : SqliteDatabase} {server : Postgres.Server} {url : String}
    {tls : Postgres.TlsMode} {limit : Duration} {session : Postgres.Session}
    (vacant : (Backend.sqlite database).rows = []) (faultless : server.faults = [])
    (bare : (Backend.sqlite ⟨server.table⟩).rows = [])
    (opened : (Postgres.Session.start server url tls limit).2 = .ok session) {calls : List Request}
    (orderly : Orderly calls) (now now' : Int) :
    let memory := (Backend.adapter now).exchanges .freshMemory (.ensureSchema :: calls)
    let sqlite := (Backend.adapter now').exchanges (.sqlite database) (.ensureSchema :: calls)
    let server := Postgres.Session.adapter.exchanges session (.ensureSchema :: calls)
    List.Forall₂ Exchange.Alike memory sqlite ∧ List.Forall₂ Exchange.Alike memory server
      ∧ List.Forall₂ Exchange.Alike sqlite server := by
  intro memory sqlite server
  obtain ⟨usable, same⟩ := Postgres.Session.usable_of_start faultless opened
  have again : Orderly (.ensureSchema :: calls) := by
    constructor
    · apply List.IsChain.cons orderly.recreated
      intro next _ dropped
      cases dropped
    · simpa using orderly.timeless
  have local_ : sqlite = memory := by
    refine (Backend.implements now' now).exchanges_eq again (Backend.mirrors_empty vacant) ?_
    intro r head
    exact .inr (by simpa using head.symm)
  have remote : server = memory := Postgres.Session.exchanges_eq usable (same ▸ bare) again now
  have alike := Backend.alike_memory now .empty (.ensureSchema :: calls)
  rw [local_, remote]
  exact ⟨alike, alike, alike⟩

/-- Names that repeat, a row that expires exactly now, an owner that deletes what another one has,
    and a table that is dropped in between. -/
theorem three_stores_one_table_repeated_names :
    let server : Postgres.Server := ⟨"PostgreSQL 16.2", 0, none, [], 0⟩
    let calls : List Request :=
      [.claimAbsent ["x", "y", "x"] "a" 5, .claimAbsent ["y", "z"] "b" 7, .deleteExpired 5,
        .deleteOwned "x" "b", .refreshOwned "a" 9, .deleteExpired 8, .selectOwned "a", .listAll,
        .dropSchema, .ensureSchema, .listAll]
    ((Backend.adapter 0).exchanges .freshMemory calls).map (·.answer)
        = [.reply .done, .reply .done, .reply (.count 0), .reply (.deleted false),
          .reply (.count 2), .reply (.count 1), .reply (.names ["x", "y"]),
          .reply (.records [⟨"x", "a", 9⟩, ⟨"y", "a", 9⟩]), .reply .done, .reply .done,
          .reply (.records [])]
      ∧ ∃ session, (Postgres.Session.start server "postgresql://host/leases" .disable
          Postgres.standardLimit).2 = .ok session
        ∧ List.Forall₂ Exchange.Alike
          ((Backend.adapter 0).exchanges .freshMemory (.ensureSchema :: calls))
          (Postgres.Session.adapter.exchanges session (.ensureSchema :: calls)) := by
  intro server calls
  have vacant : (Backend.sqlite .fresh).rows = [] := rfl
  have orderly : Orderly calls := ⟨by decide, by decide⟩
  have welcomed : (Postgres.Session.start server "postgresql://host/leases" .disable
      Postgres.standardLimit).2.toOption.isSome = true := by decide +kernel
  cases opened : (Postgres.Session.start server "postgresql://host/leases" .disable
      Postgres.standardLimit).2 with
  | error e =>
    rw [opened] at welcomed
    cases welcomed
  | ok session =>
    have agree := three_stores_one_table vacant rfl rfl opened orderly 0 0
    exact ⟨by decide, session, rfl, agree.2.1⟩

end Leasehold
