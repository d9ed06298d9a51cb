import Leasehold.Proofs.CycleStarts
import Leasehold.Proofs.Delivery

/-! # A queue that is worked off in batches

`Desk.Takes` is all that a queue with its tickets has to do with cycles: commands are taken in order and
never while a cycle is under way; a cycle begins when one has been asked for and nothing is left in the queue;
when it is over, the tickets that have been taken are answered in order. Whatever is done beside that leaves
the desk as it is. `Desk.Kept` says what follows for everything that has happened at a desk.
-/

namespace Leasehold

/-- Whether a cycle is under way at a desk, or has been asked for since the last one began. -/
inductive Desk.Phase where
  | idle
  | asked
  | cycling
  deriving DecidableEq

/-- A queue, the tickets that have been taken from it and not been answered, and the cycles. -/
structure Desk where
  queue : List Command
  tickets : List Nat
  phase : Desk.Phase

/-- The tickets of the commands that have been taken, the first first. -/
def ticketsIn (notes : List Note) : List Nat := (appliedIn notes).filterMap Command.ticket?

/-- The tickets that have been acknowledged, the first first. -/
def acknowledgedIn (notes : List Note) : List Nat := notes.filterMap Note.ticket?

def Command.isMaintain : Command → Bool
  | .maintain _ => true
  | _ => false

/-- How many of some commands ask for a cycle. -/
def requests (commands : List Command) : Nat := commands.countP Command.isMaintain

/-- A cycle has begun and has ended. -/
def WholeCycle (notes : List Note) : Prop :=
  ∃ before within succeeded after, .cycleBegan ∉ within
    ∧ notes = before ++ .cycleBegan :: within ++ .cycleEnded succeeded :: after

theorem ticketsIn_append (notes notes' : List Note) :
    ticketsIn (notes ++ notes') = ticketsIn notes ++ ticketsIn notes' := by
  rw [ticketsIn, appliedIn_append, List.filterMap_append, ticketsIn, ticketsIn]

theorem acknowledgedIn_append (notes notes' : List Note) :
    acknowledgedIn (notes ++ notes') = acknowledgedIn notes ++ acknowledgedIn notes' := List.filterMap_append

theorem requests_append (commands commands' : List Command) :
    requests (commands ++ commands') = requests commands + requests commands' := List.countP_append

theorem applied_of_appliedIn {notes : List Note} {before after : List Command} {c : Command}
    (commands : appliedIn notes = before ++ c :: after) : ∃ x y, notes = x ++ .applied c :: y
      ∧ appliedIn x = before ∧ appliedIn y = after := by
  obtain ⟨first, rest, rfl, first_eq, rest_eq⟩ := List.filterMap_eq_append_iff.mp commands
  obtain ⟨aside, n, y, rfl, silent, takes, later⟩ := List.filterMap_eq_cons_iff.mp rest_eq
  have taken : n = .applied c := by
    cases n with
    | applied c' => rw [Option.some.inj takes]
    | _ => cases takes
  refine ⟨first ++ aside, y, by rw [taken, List.append_assoc], ?_, later⟩
  rw [appliedIn, List.filterMap_append, first_eq, List.filterMap_eq_nil_iff.mpr silent,
    List.append_nil]

theorem mem_of_appliedIn {notes : List Note} {c : Command} (member : c ∈ appliedIn notes) :
    .applied c ∈ notes := by
  obtain ⟨before, after, parts⟩ := List.append_of_mem member
  obtain ⟨x, y, rfl, _⟩ := applied_of_appliedIn parts
  exact List.mem_append_right _ List.mem_cons_self

theorem taken_of_ticketsIn {notes : List Note} {before after : List Nat} {ticket : Nat}
    (tickets : ticketsIn notes = before ++ ticket :: after) :
    ∃ x y, notes = x ++ .applied (.maintain (some ticket)) :: y ∧ ticketsIn x = before := by
  obtain ⟨first, rest, parts, first_eq, rest_eq⟩ := List.filterMap_eq_append_iff.mp tickets
  obtain ⟨aside, c, later, rfl, silent, brings, _⟩ := List.filterMap_eq_cons_iff.mp rest_eq
  have brought : c = .maintain (some ticket) := by
    cases c with
    | maintain given => rw [show given = some ticket from brings]
    | register | release => cases brings
  rw [← List.append_assoc, brought] at parts
  obtain ⟨x, y, eq, applied, _⟩ := applied_of_appliedIn parts
  refine ⟨x, y, eq, ?_⟩
  rw [ticketsIn, applied, List.filterMap_append, first_eq, List.filterMap_eq_nil_iff.mpr silent,
    List.append_nil]

theorem WholeCycle.append {notes : List Note} (whole : WholeCycle notes) (more : List Note) :
    WholeCycle (notes ++ more) := by
  obtain ⟨before, within, succeeded, after, none, rfl⟩ := whole
  exact ⟨before, within, succeeded, after ++ more, none, by simp⟩

theorem WholeCycle.prepend {notes : List Note} (whole : WholeCycle notes) (earlier : List Note) :
    WholeCycle (earlier ++ notes) := by
  obtain ⟨before, within, succeeded, after, none, rfl⟩ := whole
  exact ⟨earlier ++ before, within, succeeded, after, none, by simp⟩

namespace Desk

/-- Nothing has been sent yet. -/
def start : Desk := ⟨[], [], .idle⟩

/-- What is done at a desk, note by note. -/
inductive Takes : Desk → Note → Desk → Prop where
  | sent (d : Desk) (c : Command) : Takes d (.sent c) { d with queue := d.queue ++ [c] }
  | post (c : Command) (queue : List Command) (tickets : List Nat) (phase : Phase)
      (free : phase ≠ .cycling) (plain : ∀ ticket, c ≠ .maintain ticket) :
      Takes ⟨c :: queue, tickets, phase⟩ (.applied c) ⟨queue, tickets, phase⟩
  | ask (ticket : Option Nat) (queue : List Command) (tickets : List Nat) (phase : Phase)
      (free : phase ≠ .cycling) : Takes ⟨.maintain ticket :: queue, tickets, phase⟩
        (.applied (.maintain ticket)) ⟨queue, tickets ++ ticket.toList, .asked⟩
  | begin (tickets : List Nat) : Takes ⟨[], tickets, .asked⟩ .cycleBegan ⟨[], tickets, .cycling⟩
  | finish (queue : List Command) (tickets : List Nat) (succeeded : Bool) :
      Takes ⟨queue, tickets, .cycling⟩ (.cycleEnded succeeded) ⟨queue, tickets, .idle⟩
  | answer (queue : List Command) (ticket : Nat) (tickets : List Nat) :
      Takes ⟨queue, ticket :: tickets, .idle⟩ (.acknowledged ticket) ⟨queue, tickets, .idle⟩
  | aside (d : Desk) {n : Note} (aside : n.isService = false) : Takes d n d

/-- What is done at a desk over some time. -/
inductive Reads (d : Desk) : List Note → Desk → Prop where
  | nil : Reads d [] d
  | snoc {notes d' n d''} (before : Reads d notes d') (takes : d'.Takes n d'') : Reads d (notes ++ [n]) d''

variable {d d' d'' : Desk} {notes notes' past : List Note}

theorem Reads.append (first : d.Reads notes d') (last : d'.Reads notes' d'') :
    d.Reads (notes ++ notes') d'' := by
  induction last with
  | nil => rwa [List.append_nil]
  | snoc _ takes ih =>
    rw [← List.append_assoc]
    exact ih.snoc takes

theorem Reads.split (reads : d.Reads past d'') {notes notes' : List Note} (parts : past = notes ++ notes') :
    ∃ d', d.Reads notes d' ∧ d'.Reads notes' d'' := by
  induction reads generalizing notes' with
  | nil =>
    obtain ⟨rfl, rfl⟩ := List.append_eq_nil_iff.mp parts.symm
    exact ⟨d, .nil, .nil⟩
  | @snoc before d₁ n d₂ reads takes ih =>
    rcases List.eq_nil_or_concat notes' with rfl | ⟨init, last, rfl⟩
    · rw [List.append_nil] at parts
      subst parts
      exact ⟨d₂, reads.snoc takes, .nil⟩
    · rw [List.concat_eq_append, ← List.append_assoc] at parts
      obtain ⟨same, last'⟩ := List.append_inj' parts rfl
      cases last'
      obtain ⟨d', first, rest⟩ := ih same
      rw [List.concat_eq_append]
      exact ⟨d', first, rest.snoc takes⟩

theorem Takes.reads {n : Note} (takes : d.Takes n d') : d.Reads [n] d' := .snoc .nil takes

theorem reads_beside (d : Desk) (beside : Beside notes) : d.Reads notes d := by
  induction notes with
  | nil => exact .nil
  | cons n notes ih =>
    have first : d.Takes n d := .aside d (beside n List.mem_cons_self)
    exact first.reads.append (ih fun n' member => beside n' (List.mem_cons_of_mem _ member))

theorem reads_acknowledge (queue : List Command) (tickets : List Nat) :
    Reads ⟨queue, tickets, .idle⟩ (Worker.acknowledge tickets) ⟨queue, [], .idle⟩ := by
  induction tickets with
  | nil => exact .nil
  | cons ticket tickets ih => exact (Takes.answer queue ticket tickets).reads.append ih

theorem reads_aloof (d : Desk) (aloof : Aloof notes) :
    d.Reads notes { d with queue := d.queue ++ sentIn notes } := by
  induction notes generalizing d with
  | nil =>
    rw [show sentIn [] = [] from rfl, List.append_nil]
    exact .nil
  | cons n notes ih =>
    have rest (d : Desk) := ih d fun n' member => aloof n' (List.mem_cons_of_mem _ member)
    by_cases work : n.isWork = true
    · obtain ⟨c, rfl⟩ := aloof n List.mem_cons_self work
      have more := rest { d with queue := d.queue ++ [c] }
      rw [List.append_assoc] at more
      exact (Takes.sent d c).reads.append more
    · have idle : n.isService = false := by cases n <;> simp_all [Note.isService, Note.isWork]
      have silent : n.sent? = none := by cases n <;> simp_all [Note.sent?, Note.isWork]
      have same : sentIn (n :: notes) = sentIn notes := List.filterMap_cons_none silent
      rw [same]
      exact (Takes.aside d idle).reads.append (rest d)

/-! ## What has happened at a desk -/

/-- A cycle has been asked for since the last one began. -/
def Wanted (past : List Note) : Prop :=
  ∃ x ticket y, past = x ++ .applied (.maintain ticket) :: y ∧ .cycleBegan ∉ y

/-- The next ticket to be answered is this one: it has been taken, and a whole cycle has followed. -/
def Ripe (ticket : Nat) (past : List Note) : Prop :=
  ∃ x y, past = x ++ .applied (.maintain (some ticket)) :: y ∧ ticketsIn x = acknowledgedIn past
    ∧ WholeCycle y

/-- What the phase of a desk says about its past: a desk is idle when a whole cycle has followed
    everything that asked for one. -/
def Phase.Stands : Phase → List Note → Prop
  | .idle, past => ∀ x ticket y, past = x ++ .applied (.maintain ticket) :: y → WholeCycle y
  | .asked, past => Wanted past
  | .cycling, past => ∃ x y, past = x ++ .cycleBegan :: y ∧ .cycleBegan ∉ y ∧ appliedIn y = []

/-- A desk goes with its past. -/
structure Kept (d : Desk) (past : List Note) : Prop where
  /-- Commands are taken in the order in which they were sent, and the others are queued. -/
  delivered : appliedIn past ++ d.queue = sentIn past
  /-- Tickets are answered in the order in which they were taken, and the others are kept. -/
  answered : ticketsIn past = acknowledgedIn past ++ d.tickets
  stands : d.phase.Stands past
  begun : ∀ a b, past = a ++ .cycleBegan :: b → Wanted a ∧ appliedIn a = sentIn a
  served : ∀ a ticket b, past = a ++ .acknowledged ticket :: b → Ripe ticket a

theorem cut_of_snoc {α : Type} {l a b : List α} {x y : α} (parts : l ++ [x] = a ++ y :: b) :
    b = [] ∧ l = a ∧ x = y ∨ ∃ b', b = b' ++ [x] ∧ l = a ++ y :: b' := by
  rcases List.eq_nil_or_concat b with rfl | ⟨init, last, rfl⟩
  · obtain ⟨same, last⟩ := List.append_inj' parts rfl
    exact .inl ⟨rfl, same, List.singleton_inj.mp last⟩
  · rw [List.concat_eq_append, ← List.cons_append, ← List.append_assoc] at parts
    obtain ⟨same, last'⟩ := List.append_inj' parts rfl
    rw [List.concat_eq_append, List.singleton_inj.mp last']
    exact .inr ⟨init, rfl, same⟩

/-- What happens without asking for a cycle, and without beginning or ending one, leaves the phase as it
    is, if it takes no command during a cycle. -/
theorem Phase.Stands.snoc {phase : Phase} {n : Note} (stands : phase.Stands past)
    (asks : ∀ ticket, n ≠ .applied (.maintain ticket)) (begins : n ≠ .cycleBegan)
    (free : phase = .cycling → n.applied? = none) : phase.Stands (past ++ [n]) := by
  cases phase with
  | idle =>
    intro x ticket y parts
    rcases cut_of_snoc parts with ⟨_, _, same⟩ | ⟨y', rfl, parts'⟩
    · exact absurd same (asks ticket)
    · exact (stands x ticket y' parts').append [n]
  | asked =>
    obtain ⟨x, ticket, y, rfl, since⟩ := stands
    refine ⟨x, ticket, y ++ [n], by simp, ?_⟩
    simp [since, begins.symm]
  | cycling =>
    obtain ⟨x, y, rfl, since, none⟩ := stands
    refine ⟨x, y ++ [n], by simp, by simp [since, begins.symm], ?_⟩
    rw [appliedIn_append, none, List.nil_append]
    exact List.filterMap_cons_none (free rfl)

theorem Phase.Stands.finish (stands : Phase.cycling.Stands past) (succeeded : Bool) :
    Phase.idle.Stands (past ++ [.cycleEnded succeeded]) := by
  intro x ticket y parts
  obtain ⟨x₀, y₀, began, within, none⟩ := stands
  rcases cut_of_snoc parts with ⟨_, _, same⟩ | ⟨y', rfl, parts'⟩
  · cases same
  · have asked : .applied (.maintain ticket) :: y' <:+ past := ⟨x, parts'.symm⟩
    have cycle : .cycleBegan :: y₀ <:+ past := ⟨x₀, began.symm⟩
    rcases List.suffix_or_suffix_of_suffix asked cycle with inside | ⟨z, outside⟩
    · -- nothing is taken while a cycle is under way
      rcases List.suffix_cons_iff.mp inside with same | ⟨z, later⟩
      · cases same
      · rw [← later, appliedIn_append] at none
        cases (List.append_eq_nil_iff.mp none).2
    · cases z with
      | nil => cases outside
      | cons n z =>
        obtain ⟨_, rfl⟩ := List.cons.inj outside
        exact ⟨z, y₀, succeeded, [], within, by simp⟩

variable {n : Note}

theorem Takes.balance (takes : d.Takes n d') : appliedIn [n] ++ d'.queue = d.queue ++ sentIn [n]
    ∧ d.tickets ++ ticketsIn [n] = acknowledgedIn [n] ++ d'.tickets := by
  cases takes with
  | sent c => exact ⟨rfl, List.append_nil _⟩
  | post c queue tickets phase free plain =>
    have none : c.ticket? = none := by
      cases c with
      | maintain ticket => exact absurd rfl (plain ticket)
      | register | release => rfl
    have silent : ticketsIn [.applied c] = [] := List.filterMap_cons_none none
    rw [silent, List.append_nil]
    exact ⟨(List.append_nil _).symm, rfl⟩
  | ask ticket queue tickets phase free =>
    refine ⟨(List.append_nil _).symm, ?_⟩
    cases ticket with
    | none => rfl
    | some ticket => rfl
  | begin tickets => exact ⟨rfl, List.append_nil _⟩
  | finish queue tickets succeeded => exact ⟨(List.append_nil _).symm, List.append_nil _⟩
  | answer queue ticket tickets => exact ⟨(List.append_nil _).symm, List.append_nil _⟩
  | aside d aside =>
    have none : n.applied? = none ∧ n.sent? = none ∧ n.ticket? = none := by
      cases n <;> first | exact ⟨rfl, rfl, rfl⟩ | cases aside
    simp [appliedIn, sentIn, ticketsIn, acknowledgedIn, none]

theorem Takes.stands (takes : d.Takes n d') (stands : d.phase.Stands past) :
    d'.phase.Stands (past ++ [n]) := by
  cases takes with
  | sent c => exact stands.snoc (by simp) (by simp) fun _ => rfl
  | post c queue tickets phase free plain =>
    exact stands.snoc (by simpa using plain) (by simp) fun cycling => absurd cycling free
  | ask ticket queue tickets phase free => exact ⟨past, ticket, [], rfl, List.not_mem_nil⟩
  | begin tickets => exact ⟨past, [], rfl, List.not_mem_nil, rfl⟩
  | finish queue tickets succeeded => exact stands.finish succeeded
  | answer queue ticket tickets => exact stands.snoc (by simp) (by simp) fun _ => rfl
  | aside d aside =>
    refine stands.snoc ?_ ?_ fun _ => ?_
    · rintro ticket rfl
      cases aside
    · rintro rfl
      cases aside
    · cases n <;> first | rfl | cases aside

theorem kept_start : start.Kept [] := by
  refine ⟨rfl, rfl, fun x ticket y parts => ?_, fun a b parts => ?_, fun a ticket b parts => ?_⟩
  all_goals exact absurd parts.symm (by simp)

/-- What is done at a desk is done by the book. -/
theorem Kept.takes (kept : d.Kept past) (takes : d.Takes n d') : d'.Kept (past ++ [n]) := by
  obtain ⟨commands, tickets⟩ := takes.balance
  constructor
  case delivered =>
    rw [appliedIn_append, sentIn_append, List.append_assoc, commands, ← List.append_assoc,
      kept.delivered]
  case answered =>
    rw [ticketsIn_append, acknowledgedIn_append, List.append_assoc, ← tickets, ← List.append_assoc,
      kept.answered]
  case stands => exact takes.stands kept.stands
  case begun =>
    intro a b parts
    rcases cut_of_snoc parts with ⟨_, rfl, rfl⟩ | ⟨b', _, parts'⟩
    · cases takes with
      | begin tickets => exact ⟨kept.stands, (List.append_nil _).symm.trans kept.delivered⟩
      | aside d aside => cases aside
    · exact kept.begun a b' parts'
  case served =>
    intro a ticket b parts
    rcases cut_of_snoc parts with ⟨_, rfl, rfl⟩ | ⟨b', _, parts'⟩
    · cases takes with
      | answer queue ticket tickets =>
        obtain ⟨x, y, parted, first⟩ := taken_of_ticketsIn kept.answered
        exact ⟨x, y, parted, first, kept.stands x ticket y parted⟩
      | aside d aside => cases aside
    · exact kept.served a ticket b' parts'

theorem Kept.reads (kept : d.Kept past) (reads : d.Reads notes d') : d'.Kept (past ++ notes) := by
  induction reads with
  | nil =>
    rw [List.append_nil]
    exact kept
  | snoc _ takes ih =>
    rw [← List.append_assoc]
    exact ih.takes takes

theorem Reads.kept (reads : start.Reads past d) : d.Kept past := kept_start.reads reads

/-! ## A desk with nothing to do -/

theorem Kept.all (kept : d.Kept past) (empty : d.queue = []) : appliedIn past = sentIn past := by
  rw [← kept.delivered, empty, List.append_nil]

theorem Kept.covered (kept : d.Kept past) (idle : d.phase = .idle) {x y : List Note} {n : Note}
    (parts : past = x ++ n :: y) {ticket : Option Nat} (asked : .maintain ticket ∈ appliedIn y) :
    WholeCycle y := by
  obtain ⟨y₁, y₂, rfl⟩ := List.append_of_mem (mem_of_appliedIn asked)
  have stands := kept.stands
  rw [idle] at stands
  have whole := stands (x ++ n :: y₁) ticket y₂ (by simp [parts])
  rw [List.append_cons]
  exact whole.prepend _

/-- How many cycles are to come if nothing more is sent. -/
def owed (d : Desk) : Nat := min 1 (requests d.queue + if d.phase = .asked then 1 else 0)

theorem Takes.owes (takes : d.Takes n d') :
    [n].countP Note.beginsCycle + d'.owed ≤ d.owed + requests (sentIn [n]) := by
  cases takes with
  | sent _ c =>
    have silent : [Note.sent c].countP Note.beginsCycle = 0 := rfl
    have sent : sentIn [.sent c] = [c] := rfl
    rw [silent, sent]
    simp only [owed, requests_append]
    omega
  | post c queue tickets phase free plain =>
    have silent : [Note.applied c].countP Note.beginsCycle = 0 := rfl
    have same : requests (c :: queue) = requests queue := by
      cases c with
      | maintain ticket => exact absurd rfl (plain ticket)
      | register | release => rfl
    simp only [silent, owed, same]
    omega
  | ask ticket queue tickets phase free =>
    have silent : [Note.applied (.maintain ticket)].countP Note.beginsCycle = 0 := rfl
    have more : requests (.maintain ticket :: queue) = requests queue + 1 :=
      List.countP_cons_of_pos rfl
    simp only [silent, owed, more]
    omega
  | begin tickets => exact Nat.le_refl 1
  | finish | answer =>
    simp only [owed, sentIn, requests]
    exact Nat.le_of_eq (by simp [Note.beginsCycle, Note.sent?])
  | aside d aside =>
    have silent : [n].countP Note.beginsCycle = 0 := by
      cases n <;> first | rfl | cases aside
    omega

theorem Reads.owes (reads : d.Reads notes d') :
    notes.countP Note.beginsCycle + d'.owed ≤ d.owed + requests (sentIn notes) := by
  induction reads with
  | nil => exact Nat.le_of_eq (Nat.add_comm 0 _)
  | snoc _ takes ih =>
    have step := takes.owes
    rw [List.countP_append, sentIn_append, requests_append]
    omega

/-- Commands that all wait before the first of them is taken share the first cycle. Another one begins
    only if it is asked for later on. -/
theorem Reads.shared (reads : start.Reads past d) {early late : List Note} (parts : past = early ++ late)
    (untaken : appliedIn early = []) :
    (∀ a b, past = a ++ .cycleBegan :: b → sentIn early <+: appliedIn a)
      ∧ past.countP Note.beginsCycle ≤ 1 + requests (sentIn late) := by
  obtain ⟨d₁, first, rest⟩ := reads.split parts
  have none : Note.cycleBegan ∉ early := by
    intro member
    obtain ⟨a, b, rfl⟩ := List.append_of_mem member
    obtain ⟨⟨x, ticket, y, rfl, _⟩, _⟩ := first.kept.begun a b rfl
    simp [appliedIn, Note.applied?] at untaken
  constructor
  · intro a b begun
    rw [(reads.kept.begun a b begun).2]
    rcases List.append_eq_append_iff.mp (begun.symm.trans parts) with ⟨c, same, rest⟩ | ⟨c, rfl, _⟩
    · cases c with
      | nil =>
        rw [same, List.append_nil]
      | cons n c =>
        obtain ⟨rfl, _⟩ := List.cons.inj rest
        exact absurd (same ▸ List.mem_append_right a List.mem_cons_self) none
    · rw [sentIn_append]
      exact List.prefix_append _ _
  · have before : early.countP Note.beginsCycle = 0 := by
      refine List.countP_eq_zero.mpr fun n member begins => ?_
      obtain rfl : n = .cycleBegan := by cases n <;> first | rfl | cases begins
      exact none member
    have owes := rest.owes
    have one : d₁.owed ≤ 1 := Nat.min_le_left _ _
    rw [parts, List.countP_append]
    omega

end Desk

end Leasehold
