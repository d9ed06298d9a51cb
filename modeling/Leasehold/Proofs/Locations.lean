import Leasehold.Agent.Process

/-! # What a location says, and what is shown of it

The texts that `StoreUrl.parse` takes for a server, for a file, for a file without a path and for none
of these, said by the text alone. What the agent writes about a server or about a scheme that it does
not know is a matter of the text before the first colon, so no user, password, host or path is logged.
-/

namespace Leasehold

namespace StoreUrl

variable {url path start : String} {text after : List Char}

/-! ## The grammar -/

/-- The text names a PostgreSQL server. -/
def NamesServer (url : String) : Prop :=
  (∃ rest, url = "postgres://" ++ rest) ∨ ∃ rest, url = "postgresql://" ++ rest

/-- The text names a SQLite database by this path. Two slashes behind the colon are no part of a path. -/
def NamesFile (url path : String) : Prop :=
  path ≠ "" ∧
    (url = "sqlite://" ++ path ∨ url = "sqlite:" ++ path ∧ ¬∃ rest, path = "//" ++ rest)

/-- The text announces a SQLite database and has no path. -/
def LacksPath (url : String) : Prop := url = "sqlite:" ∨ url = "sqlite://"

/-- What a location is taken for. -/
inductive Reads (url : String) : Except LeaseError StoreUrl → Prop where
  | server (names : NamesServer url) : Reads url (.ok (.postgres url))
  | file {path : String} (names : NamesFile url path) : Reads url (.ok (.sqlite path))
  | pathless (lacks : LacksPath url) :
      Reads url (.error (.invalidConfig ("SQLite store URL has no path: " ++ url)))
  | foreign (noServer : ¬NamesServer url) (noFile : ¬∃ rest, url = "sqlite:" ++ rest) :
      Reads url (.error (.unsupportedStore
        ("no lease store for URL scheme '" ++ String.ofList (scheme url.toList) ++ "'")))

/-! ## Beginnings of texts -/

theorem after?_eq_some_iff : after? start text = some after ↔ text = start.toList ++ after := by
  unfold after?
  constructor
  · intro found
    split at found
    · rename_i begins
      obtain ⟨behind, rfl⟩ := List.isPrefixOf_iff_prefix.1 begins
      rw [List.drop_left, Option.some_inj] at found
      rw [found]
    · cases found
  · rintro rfl
    rw [if_pos (List.isPrefixOf_iff_prefix.2 ⟨after, rfl⟩), List.drop_left]

theorem after?_append (start rest : String) :
    after? start (start ++ rest).toList = some rest.toList :=
  after?_eq_some_iff.2 String.toList_append

theorem isSome_after?_iff : (after? start url.toList).isSome ↔ ∃ rest, url = start ++ rest := by
  rw [Option.isSome_iff_exists]
  constructor
  · rintro ⟨after, found⟩
    refine ⟨String.ofList after, ?_⟩
    rw [← String.toList_inj, String.toList_append, String.toList_ofList, after?_eq_some_iff.1 found]
  · rintro ⟨rest, rfl⟩
    exact ⟨_, after?_append start rest⟩

theorem after?_eq_none (other : ¬∃ rest, url = start ++ rest) : after? start url.toList = none := by
  rwa [← Option.not_isSome_iff_eq_none, isSome_after?_iff]

theorem begins_server_iff :
    ((after? "postgres://" url.toList).isSome || (after? "postgresql://" url.toList).isSome) = true ↔
      NamesServer url := by
  rw [Bool.or_eq_true, isSome_after?_iff, isSome_after?_iff, NamesServer]

/-! ## One equation for each kind of text -/

theorem parse_server (names : NamesServer url) : parse url = .ok (.postgres url) := by
  simp only [parse, begins_server_iff.2 names, if_true]

theorem parse_foreign (noServer : ¬NamesServer url) (noFile : ¬∃ rest, url = "sqlite:" ++ rest) :
    parse url = .error (.unsupportedStore
      ("no lease store for URL scheme '" ++ String.ofList (scheme url.toList) ++ "'")) := by
  simp only [parse, mt begins_server_iff.1 noServer, after?_eq_none noFile]
  rfl

theorem not_namesServer_sqlite (rest : String) : ¬NamesServer ("sqlite:" ++ rest) := by
  rintro (⟨behind, equal⟩ | ⟨behind, equal⟩)
  all_goals
    have letters := congrArg String.toList equal
    simp [String.toList_append] at letters

theorem parse_sqlite {rest : String} (begins : (after? "//" rest.toList).getD rest.toList = path.toList) :
    parse ("sqlite:" ++ rest) =
      if path = "" then
        .error (.invalidConfig ("SQLite store URL has no path: " ++ ("sqlite:" ++ rest)))
      else .ok (.sqlite path) := by
  simp only [parse, mt begins_server_iff.1 (not_namesServer_sqlite rest), after?_append, begins,
    List.isEmpty_iff, String.toList_eq_nil_iff, String.ofList_toList]
  rfl

theorem parse_file (names : NamesFile url path) : parse url = .ok (.sqlite path) := by
  obtain ⟨given, rfl | ⟨rfl, plain⟩⟩ := names
  · have begins : (after? "//" ("//" ++ path).toList).getD ("//" ++ path).toList = path.toList := by
      rw [after?_append, Option.getD_some]
    have equation := parse_sqlite begins
    rwa [if_neg given, ← String.append_assoc] at equation
  · have begins : (after? "//" path.toList).getD path.toList = path.toList := by
      rw [after?_eq_none plain, Option.getD_none]
    rw [parse_sqlite begins, if_neg given]

theorem parse_pathless (lacks : LacksPath url) :
    parse url = .error (.invalidConfig ("SQLite store URL has no path: " ++ url)) := by
  obtain rfl | rfl := lacks <;> rfl

theorem namesFile_or_lacksPath (rest : String) :
    (∃ path, NamesFile ("sqlite:" ++ rest) path) ∨ LacksPath ("sqlite:" ++ rest) := by
  by_cases slashes : ∃ path, rest = "//" ++ path
  · obtain ⟨path, rfl⟩ := slashes
    have joined : "sqlite:" ++ ("//" ++ path) = "sqlite://" ++ path := by
      rw [← String.append_assoc]; rfl
    rw [joined]
    by_cases given : path = ""
    · exact .inr (.inr (by rw [given]; rfl))
    · exact .inl ⟨path, given, .inl rfl⟩
  · by_cases given : rest = ""
    · exact .inr (.inl (by rw [given]; rfl))
    · exact .inl ⟨rest, given, .inr ⟨rfl, slashes⟩⟩

theorem reads_parse (url : String) : Reads url (parse url) := by
  by_cases server : NamesServer url
  · rw [parse_server server]
    exact .server server
  by_cases sqlite : ∃ rest, url = "sqlite:" ++ rest
  · obtain ⟨rest, rfl⟩ := sqlite
    obtain ⟨path, names⟩ | lacks := namesFile_or_lacksPath rest
    · rw [parse_file names]
      exact .file names
    · rw [parse_pathless lacks]
      exact .pathless lacks
  · rw [parse_foreign server sqlite]
    exact .foreign server sqlite

theorem parse_eq_iff_reads {r : Except LeaseError StoreUrl} : parse url = r ↔ Reads url r := by
  constructor
  · rintro rfl
    exact reads_parse url
  · intro reads
    cases reads with
    | server names => exact parse_server names
    | file names => exact parse_file names
    | pathless lacks => exact parse_pathless lacks
    | foreign noServer noFile => exact parse_foreign noServer noFile

/-! ## Which texts have a given answer -/

theorem parse_eq_postgres_iff {server : String} :
    parse url = .ok (.postgres server) ↔ server = url ∧ NamesServer url := by
  constructor
  · intro parsed
    cases parse_eq_iff_reads.1 parsed with
    | server names => exact ⟨rfl, names⟩
  · rintro ⟨rfl, names⟩
    exact parse_server names

theorem parse_eq_sqlite_iff : parse url = .ok (.sqlite path) ↔ NamesFile url path := by
  constructor
  · intro parsed
    cases parse_eq_iff_reads.1 parsed with
    | file names => exact names
  · exact parse_file

theorem parse_invalid_iff : (∃ what, parse url = .error (.invalidConfig what)) ↔ LacksPath url := by
  constructor
  · rintro ⟨what, parsed⟩
    cases parse_eq_iff_reads.1 parsed with
    | pathless lacks => exact lacks
  · exact fun lacks => ⟨_, parse_pathless lacks⟩

theorem unsupported_eq {what : String} (parsed : parse url = .error (.unsupportedStore what)) :
    what = "no lease store for URL scheme '" ++ String.ofList (scheme url.toList) ++ "'" := by
  cases parse_eq_iff_reads.1 parsed with
  | foreign => rfl

theorem parse_unsupported_iff :
    (∃ what, parse url = .error (.unsupportedStore what)) ↔
      ¬NamesServer url ∧ (∀ path, ¬NamesFile url path) ∧ ¬LacksPath url := by
  constructor
  · rintro ⟨what, parsed⟩
    refine ⟨fun names => ?_, fun path names => ?_, fun lacks => ?_⟩
    · cases parsed.symm.trans (parse_server names)
    · cases parsed.symm.trans (parse_file names)
    · cases parsed.symm.trans (parse_pathless lacks)
  · rintro ⟨noServer, noFile, pathless⟩
    generalize parsed : parse url = r
    cases parse_eq_iff_reads.1 parsed with
    | server names => exact absurd names noServer
    | file names => exact absurd names (noFile _)
    | pathless lacks => exact absurd lacks pathless
    | foreign => exact ⟨_, rfl⟩

/-! ## What is shown -/

theorem scheme_append {name : String} (plain : ':' ∉ name.toList) (rest : String) :
    scheme (name ++ ":" ++ rest).toList = name.toList := by
  have letters : (name ++ ":" ++ rest).toList = name.toList ++ ':' :: rest.toList := by
    simp [String.toList_append]
  rw [letters, scheme, List.takeWhile_append_of_pos]
  · simp
  · intro c among
    simpa using ne_of_mem_of_not_mem among plain

theorem parse_unsupported_of {name rest what : String} (plain : ':' ∉ name.toList)
    (parsed : parse (name ++ ":" ++ rest) = .error (.unsupportedStore what)) :
    what = "no lease store for URL scheme '" ++ name ++ "'" := by
  rw [unsupported_eq parsed, scheme_append plain, String.ofList_toList]

end StoreUrl

namespace Agent

variable {o : Options} {u v owner : String} {time : Int} {signal : Signal}
  {files : FileSystem}

/-- The same options with another store. -/
def Options.on (o : Options) (url : String) : Options := { o with storeUrl := some url }

theorem greeting_on (o : Options) (url : String) :
    greeting (o.on url) =
      [line .info "Starting lease-agent"]
        ++ ((StoreUrl.parse url).toOption.toList.map fun u => line .info ("  Store: " ++ u.shown))
        ++ [line .info ("  Lease duration: " ++ o.settings.leaseDuration.text),
          line .info ("  Leases enabled: " ++ if o.leasesEnabled then "true" else "false")] := rfl

theorem openStore_disabled (disabled : o.leasesEnabled = false) (url : String) :
    (o.on url).openStore files = .ok .freshMemory := by
  simp only [Options.openStore, Options.plan, Options.on, disabled]
  rfl

theorem openStore_refused (enabled : o.leasesEnabled = true) {e : LeaseError}
    (refused : StoreUrl.parse u = .error e) : (o.on u).openStore files = .error e := by
  simp only [Options.openStore, Options.plan, Options.on, enabled, refused]
  rfl

theorem realize_server (url : String) (tls : Postgres.TlsMode) (limit : Duration) (files : FileSystem) :
    ∃ e, (StorePlan.server url tls limit).realize files = .error e := by
  unfold StorePlan.realize
  dsimp only
  split <;> exact ⟨_, rfl⟩

theorem openStore_server (enabled : o.leasesEnabled = true) (names : StoreUrl.NamesServer u) :
    ∃ e, (o.on u).openStore files = .error e := by
  have planned : (o.on u).plan = .ok (.server u o.tlsMode (o.on u).statementLimit) := by
    simp only [Options.plan, Options.on, enabled, StoreUrl.parse_server names]
    rfl
  obtain ⟨e, refused⟩ := realize_server u o.tlsMode (o.on u).statementLimit files
  refine ⟨e, ?_⟩
  simp only [Options.openStore, planned]
  exact refused

theorem startUp_disabled (disabled : o.leasesEnabled = false)
    (greeted : greeting (o.on u) = greeting (o.on v)) :
    startUp (o.on u) owner time files = startUp (o.on v) owner time files := by
  simp only [startUp, openStore_disabled disabled, greeted]
  rfl

theorem run_log_refused {e e' : LeaseError} (greeted : greeting (o.on u) = greeting (o.on v))
    (first : (o.on u).openStore files = .error e) (second : (o.on v).openStore files = .error e') :
    (run (o.on u) owner time signal files).log = (run (o.on v) owner time signal files).log := by
  simp only [run, startUp, first, second, greeted]
  rfl

theorem run_log_server (first : StoreUrl.NamesServer u) (second : StoreUrl.NamesServer v) :
    (run (o.on u) owner time signal files).log = (run (o.on v) owner time signal files).log := by
  have greeted : greeting (o.on u) = greeting (o.on v) := by
    rw [greeting_on, greeting_on, StoreUrl.parse_server first, StoreUrl.parse_server second]
    rfl
  cases enabled : o.leasesEnabled with
  | false => rw [run, run, startUp_disabled enabled greeted]
  | true =>
    obtain ⟨e, refused⟩ := openStore_server enabled first
    obtain ⟨e', refused'⟩ := openStore_server enabled second
    exact run_log_refused greeted refused refused'

theorem run_refused {e : LeaseError} (first : StoreUrl.parse u = .error e)
    (second : StoreUrl.parse v = .error e) :
    run (o.on u) owner time signal files = run (o.on v) owner time signal files := by
  have greeted : greeting (o.on u) = greeting (o.on v) := by
    rw [greeting_on, greeting_on, first, second]
  cases enabled : o.leasesEnabled with
  | false => rw [run, run, startUp_disabled enabled greeted]
  | true =>
    simp only [run, startUp, openStore_refused enabled first, openStore_refused enabled second, greeted]
    rfl

end Agent

namespace StoreUrl

/-- Every location is taken for what its text says, and two locations with the same text before the first
    colon cannot be told apart by what is shown of a server, by the error for an unknown scheme or by the
    log of the agent. -/
theorem parse_exact_and_discreet :
    (∀ url server, parse url = .ok (.postgres server) ↔ server = url ∧ NamesServer url) ∧
    (∀ url path, parse url = .ok (.sqlite path) ↔ NamesFile url path) ∧
    (∀ url, (∃ what, parse url = .error (.invalidConfig what)) ↔ LacksPath url) ∧
    (∀ url, (∃ what, parse url = .error (.unsupportedStore what)) ↔
      ¬NamesServer url ∧ (∀ path, ¬NamesFile url path) ∧ ¬LacksPath url) ∧
    (∀ name rest rest', ':' ∉ name.toList →
      (∀ server server', parse (name ++ ":" ++ rest) = .ok (.postgres server) →
        parse (name ++ ":" ++ rest') = .ok (.postgres server') →
          shown (.postgres server) = shown (.postgres server') ∧
          ∀ (o : Agent.Options) owner time signal files,
            (Agent.run (o.on (name ++ ":" ++ rest)) owner time signal files).log =
              (Agent.run (o.on (name ++ ":" ++ rest')) owner time signal files).log) ∧
      (∀ what what', parse (name ++ ":" ++ rest) = .error (.unsupportedStore what) →
        parse (name ++ ":" ++ rest') = .error (.unsupportedStore what') →
          (LeaseError.unsupportedStore what).message = (LeaseError.unsupportedStore what').message ∧
          ∀ (o : Agent.Options) owner time signal files,
            Agent.run (o.on (name ++ ":" ++ rest)) owner time signal files =
              Agent.run (o.on (name ++ ":" ++ rest')) owner time signal files)) := by
  refine ⟨fun _ _ => parse_eq_postgres_iff, fun _ _ => parse_eq_sqlite_iff, fun _ => parse_invalid_iff,
    fun _ => parse_unsupported_iff, fun name rest rest' plain => ⟨?_, ?_⟩⟩
  · intro server server' parsed parsed'
    exact ⟨rfl, fun _ _ _ _ _ => Agent.run_log_server (parse_eq_postgres_iff.1 parsed).2
      (parse_eq_postgres_iff.1 parsed').2⟩
  · intro what what' parsed parsed'
    have same : what = what' :=
      (parse_unsupported_of plain parsed).trans (parse_unsupported_of plain parsed').symm
    subst same
    exact ⟨rfl, fun _ _ _ _ _ => Agent.run_refused parsed parsed'⟩

/-- Two servers of which one comes with a password, two near misses of a server's scheme, a path that
    keeps two slashes of its own, and no path at all. -/
theorem parse_exact_and_discreet_secret :
    ':' ∉ "postgres".toList ∧
    (let enabled : Agent.Options := ⟨none, 8, true, default, [], 0⟩;
      (Agent.run (enabled.on "postgres://admin:secret@db/leases") "me" 0 .terminate).log =
        (Agent.run (enabled.on "postgres://db") "me" 0 .terminate).log ∧
      Agent.run (enabled.on "postgres:admin:secret@db") "me" 0 .terminate =
        Agent.run (enabled.on "postgres:/db") "me" 0 .terminate) ∧
    parse "sqlite:////" = .ok (.sqlite "//") ∧
    ∃ what, parse "sqlite://" = .error (.invalidConfig what) := by
  obtain ⟨server, file, pathless, foreign, discreet⟩ := parse_exact_and_discreet
  have plain : ':' ∉ "postgres".toList := by decide
  obtain ⟨servers, -⟩ := discreet "postgres" "//admin:secret@db/leases" "//db" plain
  obtain ⟨-, near⟩ := discreet "postgres" "admin:secret@db" "/db" plain
  have named := (server "postgres://admin:secret@db/leases" _).2 ⟨rfl, .inl ⟨"admin:secret@db/leases", rfl⟩⟩
  have named' := (server "postgres://db" _).2 ⟨rfl, .inl ⟨"db", rfl⟩⟩
  refine ⟨plain, ⟨(servers _ _ named named').2 _ "me" 0 .terminate .usual,
    (near _ _ rfl rfl).2 _ "me" 0 .terminate .usual⟩, ?_, (pathless _).2 (.inr rfl)⟩
  exact (file _ _).2 ⟨by decide, .inl rfl⟩

end StoreUrl

end Leasehold
