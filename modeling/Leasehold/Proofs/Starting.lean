import Leasehold.Proofs.Chronicle
import Leasehold.Proofs.Pacing

/-! # Attempts to start

Any number of attempts to start a manager may be under way, and the manager may be stopped at any time.
`Manager.Trying` lists what a step of an attempt can do. `Manager.Orderly` is the invariant: as long as
no start has succeeded and nobody has stopped the manager, the queue holds every command that was ever
sent, if somebody keeps it. (Nobody does after a start has crashed.)
-/

namespace Leasehold

/-- The command that is put into the queue, if one is. -/
def Note.sent? : Note → Option Command
  | .sent c => some c
  | _ => none

/-- The commands that were put into the queue, the first first. -/
def sentIn (notes : List Note) : List Command := notes.filterMap Note.sent?

theorem sentIn_append (notes notes' : List Note) :
    sentIn (notes ++ notes') = sentIn notes ++ sentIn notes' := List.filterMap_append

theorem Idle.sentIn {notes : List Note} (idle : Idle notes) : Leasehold.sentIn notes = [] := by
  rw [Leasehold.sentIn, List.filterMap_eq_nil_iff]
  intro n member
  have quiet := idle n member
  cases n with
  | sent c => cases quiet
  | _ => rfl

/-- Whether a note is what worker or scheduler writes when it runs. -/
def Note.isTask : Note → Bool
  | .sent (.maintain (some _)) => true
  | .sent _ => false
  | n => n.isWork

/-- Whether a note is what worker or scheduler writes, each by itself, when it runs. -/
def Note.isBy : TaskKind → Note → Bool
  | .worker, .sent _ => false
  | .worker, n => n.isWork
  | .scheduler, .sent (.maintain (some _)) => true
  | _, _ => false

theorem Note.isTask_eq_false_iff (n : Note) :
    n.isTask = false ↔ n.isBy .worker = false ∧ n.isBy .scheduler = false := by
  cases n with
  | sent c =>
    cases c with
    | maintain ticket => cases ticket <;> simp [isTask, isBy]
    | register | release => simp [isTask, isBy]
  | _ => simp [isTask, isBy]

/-- A start has crashed. -/
def Crashed (past : List Note) : Prop := ∃ id overflow, .startCrashed id overflow ∈ past

theorem Crashed.later {past : List Note} (crashed : Crashed past) (notes : List Note) :
    Crashed (past ++ notes) := by
  obtain ⟨id, overflow, member⟩ := crashed
  exact ⟨id, overflow, List.mem_append_left _ member⟩

/-- Nothing that worker or scheduler does, and no start that succeeds. -/
def Aftermath (notes : List Note) : Prop := ∀ n ∈ notes, n.isTask = false ∧ n.isSuccess = false

theorem Aftermath.successes {notes : List Note} (aftermath : Aftermath notes) :
    Leasehold.successes notes = 0 := by
  apply List.countP_eq_zero.mpr
  intro n member
  simp [(aftermath n member).2]

theorem aftermath_of_idle {notes : List Note} (idle : Idle notes) (lost : successes notes = 0) :
    Aftermath notes := by
  intro n member
  have quiet := idle n member
  constructor
  · cases n with
    | sent c => cases quiet
    | _ => exact quiet
  · simpa using List.countP_eq_zero.mp lost n member

namespace Manager

variable {m m' : Manager} {s : Surroundings} {store b : Backend} {notes called past : List Note}
  {limit limit' : Nat}

/-! ## Who keeps the queue -/

/-- How many keep the receiving end of the queue: the idle manager, attempts to start, the worker. -/
def receivers (m : Manager) : Nat :=
  (if m.lifecycle = .idle then 1 else 0) + m.attempts.countP Attempt.keepsQueue
    + (if m.worker.isSome then 1 else 0)

theorem queueOpen_iff_receivers : m.queueOpen = true ↔ 0 < m.receivers := by
  have some_keeps : (∃ a ∈ m.attempts, a.keepsQueue = true)
      ↔ 0 < m.attempts.countP Attempt.keepsQueue := List.countP_pos_iff.symm
  rw [queueOpen_iff, some_keeps, receivers]
  split <;> split <;> simp_all

/-- The attempts other than the one of a number. -/
def without (m : Manager) (id : Nat) : Manager :=
  { m with attempts := m.attempts.filter fun a => a.id ≠ id }

theorem dropAttempt_eq (m : Manager) (id : Nat) :
    m.dropAttempt id = (m.without id).dropQueue.dropIfUnused := rfl

theorem endAttempt_eq (m : Manager) (id : Nat) (result : Except LeaseError Unit) :
    m.endAttempt id result = ((m.without id).dropQueue.dropIfUnused, [.startEnded id result]) := rfl

theorem dropQueue_of_open (opened : m.queueOpen = true) : m.dropQueue = m := if_pos opened

theorem dropIfUnused_of_referenced (referenced : m.referenced = true) : m.dropIfUnused = m := by
  simp [dropIfUnused, inUse, referenced]

theorem attempts_dropQueue (m : Manager) : m.dropQueue.attempts = m.attempts := by
  obtain ⟨queue, eq⟩ := m.dropQueue_eq
  rw [eq]

theorem attempts_dropIfUnused (m : Manager) : m.dropIfUnused.attempts = m.attempts := by
  rcases m.dropIfUnused_cases with eq | eq <;> rw [eq]
  exact attempts_dropQueue m.ended

theorem attempts_stop (m : Manager) : m.stop.1.attempts = m.attempts := by
  rcases m.stop_cases with eq | ⟨_, eq⟩ <;> rw [eq, attempts_dropQueue]
  rfl

theorem attempts_dropAttempt (m : Manager) (id : Nat) :
    (m.dropAttempt id).attempts = m.attempts.filter fun a => a.id ≠ id := by
  rw [dropAttempt_eq, attempts_dropIfUnused, attempts_dropQueue, without]

theorem ids_setStage (m : Manager) (id : Nat) (stage : AttemptStage) :
    (m.setStage id stage).attempts.map (·.id) = m.attempts.map (·.id) := by
  rw [setStage, List.map_map]
  apply List.map_congr_left
  intro a _
  rw [Function.comp_apply]
  split <;> rfl

theorem attempts_failStart (m : Manager) (id : Nat) (e : LeaseError) :
    (m.failStart id e).1.attempts = m.attempts.filter fun a => a.id ≠ id := by
  obtain ⟨lifecycle, eq⟩ := m.failStart_eq id e
  rw [eq, attempts_dropAttempt]

theorem attempts_finishStart (m : Manager) (label : String) (id : Nat) :
    (m.finishStart label id).1.attempts = m.attempts.filter fun a => a.id ≠ id := by
  obtain ⟨lifecycle, worker, scheduler, _, eq⟩ := m.finishStart_eq label id
  rw [eq, attempts_dropAttempt]

theorem failStart_settles (m : Manager) (id : Nat) (e : LeaseError) :
    (m.failStart id e).1.lifecycle ≠ .starting := by
  unfold failStart
  split
  · rcases lifecycle_dropAttempt { m with lifecycle := .idle } id with eq | eq
    · exact fun starting => by cases eq.symm.trans starting
    · exact fun starting => by cases eq.symm.trans starting
  · rename_i other
    rcases m.lifecycle_dropAttempt id with eq | eq
    · exact fun starting => other (eq.symm.trans starting)
    · exact fun starting => by cases eq.symm.trans starting

theorem finishStart_settles (m : Manager) (label : String) (id : Nat) :
    (m.finishStart label id).1.lifecycle ≠ .starting := by
  unfold finishStart
  split
  · rcases lifecycle_dropAttempt m.launched id with eq | eq
    · exact fun starting => by cases eq.symm.trans starting
    · exact fun starting => by cases eq.symm.trans starting
  · rename_i other
    rcases m.lifecycle_dropAttempt id with eq | eq
    · exact fun starting => other (eq.symm.trans starting)
    · exact fun starting => by cases eq.symm.trans starting

/-! ## What an attempt does -/

/-- What a step of an attempt to start does. -/
inductive Trying (m : Manager) (a : Attempt) : Manager → List Note → Prop where
  /-- Is turned down before it has taken the queue. -/
  | refuse (early : a.keepsQueue = false) (e : LeaseError) :
      Trying m a (m.endAttempt a.id (.error e)).1 [.startEnded a.id (.error e)]
  /-- Asks the store for something; the first time, it takes the queue. -/
  | ask {lifecycle : Lifecycle} {stage : AttemptStage} {notes : List Note}
      (stays : lifecycle = m.lifecycle ∧ a.keepsQueue = true
        ∨ m.lifecycle = .idle ∧ lifecycle = .starting)
      (begun : stage ≠ .fresh) (idle : Idle notes) (routine : Routine notes) :
      Trying m a (({ m with lifecycle } : Manager).setStage a.id stage) notes
  /-- Succeeds at once, since leases are disabled. -/
  | enterAlone {label : String} (idle : m.lifecycle = .idle) (fields : List (String × String)) :
      Trying m a (({ m with lifecycle := .starting } : Manager).finishStart label a.id).1
        (.log .warn "Leases are disabled: every lease is granted locally without coordination" fields
          :: (({ m with lifecycle := .starting } : Manager).finishStart label a.id).2)
  | fail {called : List Note} (kept : a.keepsQueue = true) (e : LeaseError) (idle : Idle called)
      (routine : Routine called) :
      Trying m a (m.failStart a.id e).1 (called ++ (m.failStart a.id e).2)
  /-- Crashes, and gives nothing back. -/
  | crash {called : List Note} (kept : a.keepsQueue = true) (overflow : Overflow) (idle : Idle called)
      (routine : Routine called) :
      Trying m a (m.crashStart a.id overflow).1 (called ++ (m.crashStart a.id overflow).2)
  | finish {called : List Note} {label : String} (kept : a.keepsQueue = true) (idle : Idle called)
      (routine : Routine called) :
      Trying m a (m.finishStart label a.id).1 (called ++ (m.finishStart label a.id).2)

theorem trying_of_enterStart {a : Attempt} (fresh : a.keepsQueue = false) {label : String}
    (h : m.enterStart s label a.id = (m', notes)) : m.Trying a m' notes := by
  unfold enterStart at h
  split at h
  · cases h
    exact .refuse fresh _
  · split at h
    · cases h
      exact .refuse fresh _
    · cases h
      exact .refuse fresh _
    · cases h
      exact .refuse fresh _
    · rename_i idle
      dsimp only at h
      split at h
      · cases h
        refine .ask (.inr ⟨idle, rfl⟩) (by simp) ?_ ?_
        · simp [Idle, Note.isWork]
        · simp [Routine, Note.isRoutine]
      · cases h
        exact .enterAlone idle _

theorem trying_of_compareClocks {a : Attempt} (kept : a.keepsQueue = true) {label : String}
    {storeTime : Int} (h : m.compareClocks s label a.id storeTime = (m', notes))
    (idle : Idle called) (routine : Routine called) : m.Trying a m' (called ++ notes) := by
  unfold compareClocks at h
  dsimp only at h
  split at h
  · cases h
    exact .crash kept _ idle routine
  · split at h
    · cases h
      rw [List.append_cons]
      exact .fail kept _ (idle_append idle (idle_log _ _ _))
        (routine_append routine (by simp [Routine, Note.isRoutine]))
    · cases h
      refine .ask (.inl ⟨rfl, kept⟩) (by simp) (idle_append idle ?_) (routine_append routine ?_)
      · simp [Idle, Note.isWork]
      · simp [Routine, Note.isRoutine]

/-- Every step of an attempt is one of these. -/
theorem trying_of_stepAttempt {id : Nat} (h : m.stepAttempt s store id = some (m', b, notes)) :
    ∃ a ∈ m.attempts, a.id = id ∧ m.Trying a m' notes := by
  unfold stepAttempt at h
  split at h
  · simp at h
  · rename_i a found
    have present : a ∈ m.attempts := List.mem_of_find?_eq_some found
    obtain rfl : a.id = id := by simpa using List.find?_some found
    refine ⟨a, present, rfl, ?_⟩
    have calm (c : Call) : Idle (c.finish (.attempt a.id) s.trueTime store).2.2 :=
      idle_finish c (by simp) _ _
    have usual (c : Call) := routine_finish c (.attempt a.id) s.trueTime store
    split at h
    · rename_i fresh
      cases h
      exact trying_of_enterStart (by simp [Attempt.keepsQueue, fresh]) rfl
    · rename_i call comparing
      have kept : a.keepsQueue = true := keepsQueue_of_stage (by simp [comparing])
      split at h
      · dsimp only at h
        split at h
        · cases h
          exact .fail kept _ (calm call) (usual call)
        · cases h
          exact trying_of_compareClocks kept rfl (calm call) (usual call)
      · simp at h
    · rename_i call preparing
      have kept : a.keepsQueue = true := keepsQueue_of_stage (by simp [preparing])
      split at h
      · dsimp only at h
        split at h
        · cases h
          exact .fail kept _ (calm call) (usual call)
        · cases h
          exact .finish kept (calm call) (usual call)
      · simp at h

theorem Trying.staging {a : Attempt} (trying : m.Trying a m' notes) (present : a ∈ m.attempts) :
    m.Staging m' notes := by
  cases trying with
  | refuse early e => exact staging_endAttempt m a.id e
  | ask stays begun idle routine =>
    rcases stays with ⟨same, kept⟩ | entering
    · exact staging_setStage (queueOpen_of_attempt present kept) _ _ (.inl same) idle routine.successes
    · have opened := queueOpen_iff.mpr (.inl entering.1)
      exact staging_setStage opened _ _ (.inr entering) idle routine.successes
  | @enterAlone label idle fields =>
    have launch := staging_launch (.inl idle) (queueOpen_iff.mpr (.inl idle)) label a.id
    exact launch.after (idle_log _ _ _) rfl
  | fail kept e idle routine =>
    have failed := staging_failStart (queueOpen_of_attempt present kept) a.id e
    exact failed.after idle routine.successes
  | crash kept overflow idle routine =>
    exact (staging_crashStart m a.id overflow).after idle routine.successes
  | @finish called label kept idle routine =>
    have finished := staging_finishStart (queueOpen_of_attempt present kept) label a.id
    exact finished.after idle routine.successes

theorem staging_of_stepListing {id : Nat} (h : m.stepListing s store id = some (m', b, notes)) :
    m.Staging m' notes ∧ m'.attempts = m.attempts
      ∧ (m'.lifecycle = m.lifecycle ∨ m'.lifecycle = .stopped) := by
  unfold stepListing at h
  split at h
  · simp at h
  · rename_i l found
    split at h
    · cases h
      exact ⟨staging_listings _ (by simp [Idle, Note.isWork]) rfl, rfl, .inl rfl⟩
    · rename_i call called
      split at h
      · cases h
        refine ⟨?_, attempts_dropIfUnused _, lifecycle_dropIfUnused _⟩
        exact (staging_endListing m id _).after_call call (by simp) _ _
      · simp at h

/-! ## The invariant -/

/-- How attempts, queue and past of a manager fit together. -/
structure Orderly (m : Manager) (limit : Nat) (past : List Note) : Prop where
  staged : m.Staged
  distinct : (m.attempts.map (·.id)).Nodup
  below : ∀ a ∈ m.attempts, a.id < limit
  early : m.Early → successes past = 0 ∧ (m.queueOpen = true → m.queue = sentIn past)
  once : successes past ≤ 1

theorem orderly_fresh (owner : String) (settings : Settings) (limit : Nat) :
    (fresh owner settings).Orderly limit [] where
  staged := staged_fresh owner settings
  distinct := List.nodup_nil
  below a member := by cases member
  early _ := ⟨rfl, fun _ => rfl⟩
  once := Nat.zero_le 1

theorem Orderly.mono (orderly : m.Orderly limit past) (le : limit ≤ limit') :
    m.Orderly limit' past :=
  { orderly with below := fun a member => Nat.lt_of_lt_of_le (orderly.below a member) le }

/-- At most one keeps the receiving end of the queue. -/
theorem Orderly.receivers_le (orderly : m.Orderly limit past) : m.receivers ≤ 1 := by
  have staged := orderly.staged
  have few : m.attempts.countP Attempt.keepsQueue ≤ 1 := by
    have same : ∀ a ∈ m.attempts.filter Attempt.keepsQueue,
        ∀ b ∈ m.attempts.filter Attempt.keepsQueue, a.id = b.id := by
      intro a memberA b memberB
      obtain ⟨insideA, keepsA⟩ := List.mem_filter.mp memberA
      obtain ⟨insideB, keepsB⟩ := List.mem_filter.mp memberB
      exact staged.alone a insideA b insideB keepsA keepsB
    have apart := orderly.distinct.sublist
      ((List.filter_sublist (l := m.attempts) (p := Attempt.keepsQueue)).map (·.id))
    rw [List.countP_eq_length_filter]
    cases keepers : m.attempts.filter Attempt.keepsQueue with
    | nil => simp
    | cons a others =>
      cases others with
      | nil => simp
      | cons b others =>
        rw [keepers] at same apart
        have eq := same a List.mem_cons_self b (by simp)
        simp [eq] at apart
  have idle_none : m.lifecycle = .idle →
      m.attempts.countP Attempt.keepsQueue = 0 ∧ m.worker = none := by
    intro idle
    refine ⟨List.countP_eq_zero.mpr (staged.no_keeper idle), staged.worker_none (.inl idle)⟩
  have worker_none : 0 < m.attempts.countP Attempt.keepsQueue → m.worker = none := by
    intro some_keeps
    obtain ⟨a, member, keeps⟩ := List.countP_pos_iff.mp some_keeps
    exact (staged.keeping a member keeps).2
  unfold receivers
  split
  · rename_i idle
    simp [idle_none idle]
  · split
    · rename_i there
      have none_keeps : m.attempts.countP Attempt.keepsQueue = 0 := by
        by_contra some_keeps
        have gone := worker_none (Nat.pos_of_ne_zero some_keeps)
        simp [gone] at there
      omega
    · omega

theorem Orderly.keep (orderly : m.Orderly limit past) (staged : m'.Staged)
    (fewer : (m'.attempts.map (·.id)).Sublist (m.attempts.map (·.id)))
    (lost : successes notes = 0)
    (early : m'.Early → m.Early ∧ (m'.queueOpen = true → m.queueOpen = true
      ∧ m'.queue = m.queue ++ sentIn notes)) :
    m'.Orderly limit (past ++ notes) where
  staged := staged
  distinct := orderly.distinct.sublist fewer
  below a member := by
    obtain ⟨a₀, inside, same⟩ := List.mem_map.mp (fewer.subset (List.mem_map_of_mem member))
    exact same ▸ orderly.below a₀ inside
  early soon := by
    obtain ⟨before, queue⟩ := early soon
    obtain ⟨none, same⟩ := orderly.early before
    refine ⟨by rw [successes_append, none, lost], fun opened' => ?_⟩
    obtain ⟨opened, eq⟩ := queue opened'
    rw [eq, same opened, sentIn_append]
  once := by
    rw [successes_append, lost]
    exact orderly.once

theorem Orderly.stage (orderly : m.Orderly limit past) (staging : m.Staging m' notes)
    (staged : m'.Staged) (fewer : (m'.attempts.map (·.id)).Sublist (m.attempts.map (·.id))) :
    m'.Orderly limit (past ++ notes) := by
  cases staging with
  | launch early opened keeps idle won begun =>
    have none := (orderly.early early).1
    refine ⟨staged, orderly.distinct.sublist fewer, ?_, fun soon => absurd soon begun, ?_⟩
    · intro a member
      obtain ⟨a₀, inside, same⟩ := List.mem_map.mp (fewer.subset (List.mem_map_of_mem member))
      exact same ▸ orderly.below a₀ inside
    · rw [successes_append, none, won]
  | keep keeps idle lost stage =>
    refine orderly.keep staged fewer lost fun soon => ?_
    have before : m.Early := by
      rcases stage with same | stopped | ⟨before, _⟩
      · exact soon.imp same.symm.trans same.symm.trans
      · rcases soon with idle | starting
        · cases stopped.symm.trans idle
        · cases stopped.symm.trans starting
      · exact before
    refine ⟨before, fun opened' => ?_⟩
    rw [idle.sentIn, List.append_nil]
    exact keeps.opened opened'

theorem Orderly.kept_without (orderly : m.Orderly limit past) {a k : Attempt} (present : a ∈ m.attempts)
    (early : a.keepsQueue = false) (member : k ∈ m.attempts) (keeps : k.keepsQueue = true) :
    k ∈ (m.without a.id).attempts := by
  refine List.mem_filter.mpr ⟨member, ?_⟩
  rw [decide_eq_true_eq]
  intro same
  rw [List.inj_on_of_nodup_map orderly.distinct member present same, early] at keeps
  cases keeps

theorem Orderly.trying (orderly : m.Orderly limit past) {a : Attempt} (present : a ∈ m.attempts)
    (trying : m.Trying a m' notes) (staged : m'.Staged) : m'.Orderly limit (past ++ notes) := by
  apply orderly.stage (trying.staging present) staged
  cases trying with
  | refuse early e =>
    rw [endAttempt, attempts_dropAttempt]
    exact List.filter_sublist.map _
  | ask stays begun idle routine =>
    rw [ids_setStage]
  | enterAlone idle fields =>
    rw [attempts_finishStart]
    exact List.filter_sublist.map _
  | fail kept e idle routine =>
    rw [attempts_failStart]
    exact List.filter_sublist.map _
  | crash kept overflow idle routine =>
    rw [crashStart, attempts_dropAttempt]
    exact List.filter_sublist.map _
  | finish kept idle routine =>
    rw [attempts_finishStart]
    exact List.filter_sublist.map _

/-- Somebody keeps the queue while a start is under way, unless a start has crashed. -/
def Kept (m : Manager) (past : List Note) : Prop :=
  m.lifecycle = .starting → (∃ a ∈ m.attempts, a.keepsQueue = true) ∨ Crashed past

theorem Kept.still (safe : m.Kept past) (more : ∀ a ∈ m.attempts, a ∈ m'.attempts)
    (same : m'.lifecycle = .starting → m.lifecycle = .starting) (notes : List Note) :
    m'.Kept (past ++ notes) := by
  intro starting
  rcases safe (same starting) with ⟨a, member, keeps⟩ | crashed
  · exact .inl ⟨a, more a member, keeps⟩
  · exact .inr (crashed.later notes)

theorem Orderly.keptBy (orderly : m.Orderly limit past) (safe : m.Kept past) {a : Attempt}
    (present : a ∈ m.attempts) (trying : m.Trying a m' notes) : m'.Kept (past ++ notes) := by
  intro starting
  cases trying with
  | refuse early e =>
    have before : m.lifecycle = .starting := by
      rcases m.lifecycle_dropAttempt a.id with same | stopped
      · exact same.symm.trans starting
      · cases stopped.symm.trans starting
    rcases safe before with ⟨k, member, keeps⟩ | crashed
    · refine .inl ⟨k, ?_, keeps⟩
      rw [endAttempt, attempts_dropAttempt]
      exact orderly.kept_without present early member keeps
    · exact .inr (crashed.later _)
  | @ask lifecycle stage notes stays begun idle routine =>
    refine .inl ⟨{ a with stage }, List.mem_map.mpr ⟨a, present, if_pos rfl⟩, ?_⟩
    exact keepsQueue_of_stage begun
  | enterAlone idle fields => exact absurd starting (finishStart_settles _ _ _)
  | fail kept e idle routine => exact absurd starting (failStart_settles _ _ _)
  | crash kept overflow idle routine =>
    exact .inr ⟨a.id, overflow, List.mem_append_right _ (List.mem_append_right _ List.mem_cons_self)⟩
  | finish kept idle routine => exact absurd starting (finishStart_settles _ _ _)

theorem Orderly.beginStart (orderly : m.Orderly limit past) (counted : limit < limit')
    (staged : (m.beginStart limit).Staged) : (m.beginStart limit).Orderly limit' past where
  staged := staged
  distinct := by
    have new : limit ∉ m.attempts.map (·.id) := by
      intro member
      obtain ⟨a, inside, same⟩ := List.mem_map.mp member
      exact absurd (orderly.below a inside) (by omega)
    simpa [Manager.beginStart, List.nodup_append] using ⟨orderly.distinct, by simpa using new⟩
  below a member := by
    rcases List.mem_append.mp member with old | new
    · exact Nat.lt_trans (orderly.below a old) counted
    · rw [List.mem_singleton.mp new]
      exact counted
  early soon := by
    obtain ⟨none, queue⟩ := orderly.early soon
    exact ⟨none, fun opened => queue ((keeps_beginStart m limit).opened opened).1⟩
  once := orderly.once

theorem send_sent (m : Manager) {c : Command} (plain : (Note.sent c).isTask = false) :
    (m.send c).1 = { m with queue := m.queue ++ sentIn (m.send c).2 } ∧ Aftermath (m.send c).2 := by
  cases opened : m.queueOpen with
  | true =>
    rw [send_of_open opened]
    exact ⟨rfl, by simp [Aftermath, plain, Note.isSuccess]⟩
  | false =>
    rw [send_of_closed opened]
    refine ⟨?_, by simp [Aftermath, Note.isTask, Note.isWork, Note.isSuccess]⟩
    rw [(idle_log _ _ _).sentIn, List.append_nil]

theorem createHandle_sent (m : Manager) (name : String) :
    (∃ registry handles, (m.createHandle name).2.1
        = { m with registry, handles, queue := m.queue ++ sentIn (m.createHandle name).2.2 })
      ∧ Aftermath (m.createHandle name).2.2 := by
  have same : m = { m with queue := m.queue ++ sentIn [] } := by simp [sentIn]
  cases opened : m.queueOpen with
  | false =>
    rw [createHandle_of_closed opened]
    exact ⟨⟨_, _, same⟩, by simp [Aftermath]⟩
  | true =>
    cases taken : m.registry.active.lookup name with
    | none =>
      rw [createHandle_of_free opened taken]
      exact ⟨⟨_, _, rfl⟩, by simp [Aftermath, Note.isTask, Note.isWork, Note.isSuccess]⟩
    | some id =>
      rw [createHandle_of_taken opened (by simp [taken])]
      exact ⟨⟨_, _, same⟩, by simp [Aftermath]⟩

theorem releaseHandle_sent (m : Manager) (id : Nat) :
    (∃ registry handles, (m.releaseHandle id).1
        = { m with registry, handles, queue := m.queue ++ sentIn (m.releaseHandle id).2 })
      ∧ Aftermath (m.releaseHandle id).2 := by
  rcases m.releaseHandle_cases id with eq | ⟨h, _, _, _, eq⟩
  · rw [eq]
    exact ⟨⟨m.registry, m.handles, by simp [sentIn]⟩, by simp [Aftermath]⟩
  · rw [eq]
    unfold unregister
    split
    · have sent := send_sent ({ m with
        handles := giveBack m.handles id
        registry := { m.registry with active := m.registry.active.filter fun e => e.1 ≠ h.name } })
        (c := .release h.name id) rfl
      exact ⟨⟨_, _, sent.1⟩, sent.2⟩
    · refine ⟨⟨m.registry, giveBack m.handles id, by simp [sentIn, Note.sent?]⟩, ?_⟩
      simp [Aftermath, Note.isTask, Note.isWork, Note.isSuccess]

/-! ## Starts that fail -/

theorem Orderly.find?_eq (orderly : m.Orderly limit past) {a : Attempt} (present : a ∈ m.attempts) :
    (m.attempts.find? fun k => k.id = a.id) = some a := by
  cases found : m.attempts.find? fun k => k.id = a.id with
  | none => simpa using List.find?_eq_none.mp found a present
  | some k =>
    have same : k.id = a.id := by simpa using List.find?_some found
    rw [List.inj_on_of_nodup_map orderly.distinct (List.mem_of_find?_eq_some found) present same]

/-- An attempt that begins while another is pending, or after one has succeeded, is turned down and
    leaves nothing behind. -/
theorem Orderly.refused (orderly : m.Orderly limit past) (valid : m.settings.validate = .ok ())
    {a : Attempt} (present : a ∈ m.attempts) (early : a.keepsQueue = false)
    (active : m.lifecycle ≠ .stopped)
    (taken : (∃ k ∈ m.attempts, k.keepsQueue = true) ∨ 0 < successes past) :
    m.stepAttempt s store a.id = some ((m.without a.id).dropIfUnused, store,
      [.startEnded a.id (.error .alreadyStarted)]) := by
  have fresh : a.stage = .fresh := by simpa [Attempt.keepsQueue] using early
  have begun : m.lifecycle = .starting ∧ (∃ k ∈ m.attempts, k.keepsQueue = true)
      ∨ m.lifecycle = .running := by
    rcases taken with ⟨k, member, keeps⟩ | won
    · cases stage : m.lifecycle with
      | starting => exact .inl ⟨rfl, k, member, keeps⟩
      | running => exact .inr rfl
      | stopped => exact absurd stage active
      | idle => exact absurd keeps (orderly.staged.no_keeper stage k member)
    · have none (soon : m.Early) : False := by
        rw [(orderly.early soon).1] at won
        cases won
      cases stage : m.lifecycle with
      | starting => exact (none (.inr stage)).elim
      | running => exact .inr rfl
      | stopped => exact absurd stage active
      | idle => exact (none (.inl stage)).elim
  have opened : (m.without a.id).queueOpen = true := by
    rw [queueOpen_iff]
    rcases begun with ⟨_, k, member, keeps⟩ | running
    · exact .inr (.inl ⟨k, orderly.kept_without present early member keeps, keeps⟩)
    · exact .inr (.inr (orderly.staged.running running).1)
  have ended : m.enterStart s store.label a.id = m.endAttempt a.id (.error .alreadyStarted) := by
    rcases begun with ⟨stage, _⟩ | stage <;> simp [enterStart, valid, stage]
  rw [stepAttempt, orderly.find?_eq present]
  simp only [fresh, ended, endAttempt_eq, dropQueue_of_open opened]

/-- An attempt that fails gives back the queue, which holds everything that was ever sent. -/
theorem Orderly.failed (orderly : m.Orderly limit past) {a : Attempt} (present : a ∈ m.attempts)
    (kept : a.keepsQueue = true) (active : m.lifecycle ≠ .stopped)
    (step : m.stepAttempt s store a.id = some (m', b, notes)) {e : LeaseError}
    (ended : .startEnded a.id (.error e) ∈ notes) :
    m' = (({ m with lifecycle := .idle } : Manager).without a.id).dropIfUnused
      ∧ m.queue = sentIn past := by
  have starting : m.lifecycle = .starting := by
    obtain ⟨notIdle, none⟩ := orderly.staged.keeping a present kept
    cases stage : m.lifecycle with
    | starting => rfl
    | idle => exact absurd stage notIdle
    | stopped => exact absurd stage active
    | running =>
      have there := (orderly.staged.running stage).1
      rw [none] at there
      cases there
  refine ⟨?_, (orderly.early (.inr starting)).2 (queueOpen_of_attempt present kept)⟩
  obtain ⟨k, member, same, trying⟩ := trying_of_stepAttempt step
  obtain rfl := List.inj_on_of_nodup_map orderly.distinct member present same
  cases trying with
  | refuse early e' => cases kept.symm.trans early
  | ask stays begun idle routine => cases routine _ ended
  | enterAlone idle fields => cases starting.symm.trans idle
  | fail _ e' idle routine =>
    have opened : (({ m with lifecycle := .idle } : Manager).without k.id).queueOpen = true :=
      queueOpen_iff.mpr (.inl rfl)
    rw [failStart, if_pos starting, endAttempt_eq, dropQueue_of_open opened]
  | crash _ overflow idle routine =>
    rcases List.mem_append.mp ended with called | last
    · cases routine _ called
    · simp [crashStart] at last
  | finish _ idle routine =>
    rcases List.mem_append.mp ended with called | last
    · cases routine _ called
    · simp [finishStart, starting, endAttempt] at last

/-! ## Worker and scheduler -/

/-- Worker and scheduler appear only when a start succeeds. -/
theorem Shift.successes_of_arrival (shift : m.Shift s store m' notes)
    (arrival : m.worker = none ∧ m'.worker.isSome = true
      ∨ m.scheduler = none ∧ m'.scheduler.isSome = true) : successes notes = 1 := by
  have absent (same : m'.worker = m.worker) (same' : m'.scheduler = m.scheduler) : False := by
    rw [same, same'] at arrival
    rcases arrival with ⟨none, there⟩ | ⟨none, there⟩ <;> simp [none] at there
  cases shift with
  | create name =>
    obtain ⟨registry, handles, more, eq⟩ := m.createHandle_eq name
    exact (absent (by rw [eq]) (by rw [eq])).elim
  | release id =>
    obtain ⟨registry, handles, more, eq⟩ := m.releaseHandle_eq id
    exact (absent (by rw [eq]) (by rw [eq])).elim
  | work present move =>
    rw [publishAll_eq] at arrival
    rcases arrival with ⟨none, _⟩ | ⟨none, there⟩
    · cases present.symm.trans none
    · simp [none] at there
  | request opened running =>
    rcases arrival with ⟨none, there⟩ | ⟨none, _⟩
    · simp [none] at there
    · simp [none] at running
  | pace running =>
    rcases arrival with ⟨none, there⟩ | ⟨none, _⟩
    · simp [none] at there
    · simp [none] at running
  | stage staging =>
    cases staging with
    | launch early opened keeps idle won begun => exact won
    | keep keeps idle lost stage =>
      rcases arrival with ⟨none, there⟩ | ⟨none, there⟩
      · rcases keeps.worker with same | same <;> simp [same, none] at there
      · obtain ⟨sc', present'⟩ := Option.isSome_iff_exists.mp there
        obtain ⟨sc, present, _⟩ := keeps.scheduler sc' present'
        cases present.symm.trans none
  | reap stopped idle lost closed =>
    obtain ⟨queue, eq⟩ := ({ m with worker := none } : Manager).dropQueue_eq
    rw [eq] at arrival
    rcases arrival with ⟨_, there⟩ | ⟨none, there⟩
    · simp at there
    · simp [none] at there

theorem stepWorker_eq {b : Backend} (h : m.stepWorker s store = some (m', b, notes)) :
    m.worker.isSome = true ∧ m'.lifecycle = m.lifecycle ∧ m'.attempts = m.attempts
      ∧ successes notes = 0 := by
  obtain ⟨w, present, h⟩ := Option.bind_eq_some_iff.mp h
  obtain ⟨r, step, h⟩ := Option.map_eq_some_iff.mp h
  cases h
  rw [publishAll_eq]
  exact ⟨by simp [present], rfl, rfl, (Worker.move_of_step step).successes⟩

theorem stepScheduler_eq {b : Backend} (h : m.stepScheduler s store = some (m', b, notes)) :
    m.scheduler.isSome = true ∧ m'.lifecycle = m.lifecycle ∧ m'.attempts = m.attempts
      ∧ successes notes = 0 := by
  obtain ⟨sc, present, h⟩ := Option.bind_eq_some_iff.mp h
  obtain ⟨⟨next, ticket⟩, step, h⟩ := Option.map_eq_some_iff.mp h
  refine ⟨by simp [present], ?_⟩
  cases ticket with
  | none =>
    cases h
    exact ⟨rfl, rfl, rfl⟩
  | some ticket =>
    by_cases listened : m.queueOpen = true
    · have still : ({ m with scheduler := some next } : Manager).queueOpen = true := listened
      simp only [listened, if_true, send, still] at h
      cases h
      exact ⟨rfl, rfl, rfl⟩
    · simp only [listened, if_false, Bool.false_eq_true] at h
      cases h
      exact ⟨rfl, rfl, rfl⟩

theorem not_by_scheduler_of_stepWorker {b : Backend}
    (h : m.stepWorker s store = some (m', b, notes)) : ∀ n ∈ notes, n.isBy .scheduler = false := by
  obtain ⟨w, present, h⟩ := Option.bind_eq_some_iff.mp h
  obtain ⟨r, step, h⟩ := Option.map_eq_some_iff.mp h
  cases h
  have silent {notes : List Note} (routine : Routine notes) : ∀ n ∈ notes, n.isBy .scheduler = false := by
    intro n member
    have usual := routine n member
    cases n with
    | sent c => cases usual
    | _ => rfl
  rcases (Worker.move_of_step step).routine with ⟨_, routine⟩ | ⟨c, rest, _, _, eq, routine⟩
  · exact silent routine
  · rw [eq]
    exact List.forall_mem_cons.mpr ⟨rfl, silent routine⟩

theorem not_by_worker_of_stepScheduler {b : Backend}
    (h : m.stepScheduler s store = some (m', b, notes)) : ∀ n ∈ notes, n.isBy .worker = false := by
  obtain ⟨sc, present, h⟩ := Option.bind_eq_some_iff.mp h
  obtain ⟨⟨next, ticket⟩, step, h⟩ := Option.map_eq_some_iff.mp h
  cases ticket with
  | none =>
    cases h
    exact List.forall_mem_nil _
  | some ticket =>
    by_cases listened : m.queueOpen = true
    · have still : ({ m with scheduler := some next } : Manager).queueOpen = true := listened
      simp only [listened, if_true, send, still] at h
      cases h
      simp [Note.isBy]
    · simp only [listened, if_false, Bool.false_eq_true] at h
      cases h
      simp [Note.isBy, Note.isWork]

theorem reap_eq (m : Manager) (k : TaskKind) :
    (m.reap k).1.lifecycle = m.lifecycle ∧ (m.reap k).1.attempts = m.attempts := by
  cases k with
  | worker => exact ⟨lifecycle_dropQueue _, attempts_dropQueue _⟩
  | _ => exact ⟨rfl, rfl⟩

theorem Staged.stopped_of_aborted (staged : m.Staged) {k : TaskKind} (aborted : m.isAborted k = true) :
    m.lifecycle = .stopped := by
  cases k with
  | worker =>
    cases present : m.worker with
    | none => simp [isAborted, present] at aborted
    | some w => exact staged.stopped_of_worker present (by simpa [isAborted, present] using aborted)
  | scheduler =>
    cases present : m.scheduler with
    | none => simp [isAborted, present] at aborted
    | some sc => exact staged.stopped_of_scheduler present (by simpa [isAborted, present] using aborted)
  | attempt id | listing id => simp [isAborted] at aborted

theorem Orderly.settled (orderly : m.Orderly limit past) (staged : m'.Staged)
    (attempts : m'.attempts = m.attempts) (lost : successes notes = 0) (begun : ¬ m'.Early) :
    m'.Orderly limit (past ++ notes) :=
  orderly.keep staged (by rw [attempts]) lost fun early => absurd early begun

theorem Staging.aftermath (staging : m.Staging m' notes) (stopped : m.lifecycle = .stopped) :
    Aftermath notes := by
  cases staging with
  | launch early opened keeps idle won begun =>
    rcases early with idle | starting
    · cases stopped.symm.trans idle
    · cases stopped.symm.trans starting
  | keep keeps idle lost stage => exact aftermath_of_idle idle lost

/-! ## A start that succeeds -/

theorem find?_setStage {id : Nat} {a : Attempt}
    (found : (m.attempts.find? fun k => k.id = id) = some a) (stage : AttemptStage) :
    ((m.setStage id stage).attempts.find? fun k => k.id = id) = some { a with stage } := by
  have own : a.id = id := by simpa using List.find?_some found
  have ids : ((fun k : Attempt => decide (k.id = id))
      ∘ fun k => if k.id = id then { k with stage } else k) = fun k => decide (k.id = id) := by
    funext k
    rw [Function.comp_apply]
    split <;> rfl
  rw [setStage, List.find?_map, ids, found, Option.map_some, if_pos own]

theorem skew_self (x : Int) : Reading.skew x x = 0 := by simp [Reading.skew]

theorem skewOverflow?_self (x : Int) : Reading.skewOverflow? x x = none := by
  simp [Reading.skewOverflow?, Reading.overflows, Reading.InRange, Reading.min, Reading.max]

theorem compareClocks_of_overflow {label : String} {id : Nat} {time : Int} {overflow : Overflow}
    (overflows : Reading.skewOverflow? s.clock time = some overflow) :
    m.compareClocks s label id time = m.crashStart id overflow := by
  simp only [compareClocks, overflows]

theorem compareClocks_of_near (label : String) (id : Nat) {time : Int}
    (fits : Reading.skewOverflow? s.clock time = none)
    (near : Reading.skew s.clock time ≤ m.settings.graceMillis) : ∃ told,
    m.compareClocks s label id time
      = (m.setStage id (.preparing (Call.place s.link s.now .ensureSchema)),
        [.log .debug told [], .began (.attempt id) .ensureSchema]) := by
  simp only [compareClocks, fits, not_lt.mpr near, if_false]
  exact ⟨_, rfl⟩

theorem compareClocks_of_far (label : String) (id : Nat) {time : Int}
    (fits : Reading.skewOverflow? s.clock time = none)
    (far : m.settings.graceMillis < Reading.skew s.clock time) : ∃ fields,
    m.compareClocks s label id time
      = ((m.failStart id (.clockSkew (Reading.skew s.clock time) m.settings.graceMillis)).1,
        .log .error "Local clock is not synchronized with the lease store" fields
          :: (m.failStart id (.clockSkew (Reading.skew s.clock time) m.settings.graceMillis)).2) := by
  simp only [compareClocks, fits, far, if_true]
  exact ⟨_, rfl⟩

variable {id : Nat}

variable (store) in
theorem stepAttempt_of_fresh (valid : m.settings.validate = .ok ()) (idle : m.lifecycle = .idle)
    (enabled : m.settings.enabled = true)
    (found : (m.attempts.find? fun k => k.id = id) = some ⟨id, .fresh⟩) :
    m.stepAttempt s store id = some (({ m with lifecycle := .starting } : Manager).setStage id
      (.comparing (Call.place s.link s.now .referenceTime)), store,
        [.began (.attempt id) .referenceTime]) := by
  simp [stepAttempt, found, enterStart, valid, idle, enabled]

theorem finish_of_prompt {c : Call} (prompt : c.Prompt s.now) (caller : Caller) {reply : Reply}
    {next : Backend}
    (carried : store.perform (c.link.storeClock s.trueTime) c.request = (.ok reply, next)) :
    ∃ notes, c.finish caller s.trueTime store = (.ok reply, next, notes) ∧ successes notes = 0 := by
  have routine := routine_finish c caller s.trueTime store
  have eq : c.finish caller s.trueTime store
      = (.ok reply, next, (c.finish caller s.trueTime store).2.2) := by
    simp [Call.finish, prompt.answer, carried]
  exact ⟨_, eq, routine.successes⟩

variable (store) in
theorem stepAttempt_of_comparing {asked : Nat} (le : asked ≤ s.now)
    (found : (m.attempts.find? fun k => k.id = id)
      = some ⟨id, .comparing (Call.place .clear asked .referenceTime)⟩)
    (near : s.clock = Link.clear.storeClock s.trueTime) : ∃ notes,
    m.stepAttempt s store id
      = some (m.setStage id (.preparing (Call.place s.link s.now .ensureSchema)), store, notes)
      ∧ successes notes = 0 := by
  have prompt := (Call.prompt_place asked .referenceTime).later le
  have time : store.perform (Link.clear.storeClock s.trueTime) .referenceTime
      = (.ok (.time s.clock), store) := by
    rw [near]
    cases store <;> rfl
  have close : Reading.skew s.clock s.clock ≤ m.settings.graceMillis := by
    rw [skew_self]
    exact Settings.graceMillis_nonneg _
  obtain ⟨called, answer, silent⟩ := finish_of_prompt prompt (.attempt id) time
  obtain ⟨told, compared⟩ :=
    compareClocks_of_near store.label id (skewOverflow?_self s.clock) close
  refine ⟨called ++ (m.compareClocks s store.label id s.clock).2, ?_, ?_⟩
  · simp only [stepAttempt, found, prompt.due, if_true, answer, Reply.millis, compared]
  · rw [successes_append, silent, compared]
    rfl

variable (store) in
theorem stepAttempt_of_disabled (valid : m.settings.validate = .ok ()) (idle : m.lifecycle = .idle)
    (disabled : m.settings.enabled = false)
    (found : (m.attempts.find? fun k => k.id = id) = some ⟨id, .fresh⟩) : ∃ notes,
    m.stepAttempt s store id = some ((m.launched.endAttempt id (.ok ())).1, store, notes)
      ∧ successes notes = 1 := by
  have starting : ({ m with lifecycle := .starting } : Manager).lifecycle = .starting := rfl
  refine ⟨(m.enterStart s store.label id).2, ?_, ?_⟩
  · simp only [stepAttempt, found, enterStart, valid, idle, disabled, Bool.false_eq_true, if_false,
      finishStart_of_starting starting]
    rfl
  · simp [enterStart, valid, idle, disabled, finishStart, endAttempt, successes, Note.isSuccess]

variable (store) in
theorem stepAttempt_of_preparing {asked : Nat} (le : asked ≤ s.now)
    (found : (m.attempts.find? fun k => k.id = id)
      = some ⟨id, .preparing (Call.place .clear asked .ensureSchema)⟩)
    (starting : m.lifecycle = .starting) : ∃ b notes,
    m.stepAttempt s store id = some ((m.launched.endAttempt id (.ok ())).1, b, notes)
      ∧ successes notes = 1 := by
  obtain ⟨next, created⟩ : ∃ next,
      store.perform (Link.clear.storeClock s.trueTime) .ensureSchema = (.ok .done, next) := by
    cases store <;> exact ⟨_, rfl⟩
  have prompt := (Call.prompt_place asked .ensureSchema).later le
  obtain ⟨called, answer, silent⟩ := finish_of_prompt prompt (.attempt id) created
  refine ⟨next, called ++ (m.finishStart store.label id).2, ?_, ?_⟩
  · simp only [stepAttempt, found, prompt.due, if_true, answer, finishStart_of_starting starting]
    rfl
  · rw [successes_append, silent]
    simp [finishStart, starting, endAttempt, successes, Note.isSuccess]

theorem endAttempt_launched (referenced : m.referenced = true) (id : Nat) :
    (m.launched.endAttempt id (.ok ())).1 = m.launched.without id := by
  have opened : (m.launched.without id).queueOpen = true := queueOpen_iff.mpr (.inr (.inr rfl))
  rw [endAttempt_eq, dropQueue_of_open opened]
  exact dropIfUnused_of_referenced referenced

end Manager

end Leasehold
