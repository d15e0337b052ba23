import SourceView.Journal

/-! Journals that are set up again and again, while others attach handlers to them. The handlers that
are the journal's own are always told from those of others. As long as every log file can be made, they
are the ones for the last setup that took effect, and a setup that does not insist finds them and changes
nothing. A setup that fails has already taken them away. -/
namespace SourceView.Journal

/-- A setup and the host on which it is carried out. Folders, files and the environment may be others
every time. -/
structure Call where
  host : Host
  setup : Setup

/-- The log file of a call, or the cause for which its folder or the file itself cannot be made. -/
def Call.target (call : Call) : Except Fault Path := (prepare call.host call.setup).2

/-- The calls that take effect when none fails: the first one, and later ones that insist. -/
def effective : List Call → List Call
  | [] => []
  | first :: later => first :: later.filter (·.setup.force)

/-- A journal for which nothing is set up. Others may have attached handlers. -/
structure Fresh (journal : Journal) : Prop where
  installed : journal.installed = []
  numbered : ∀ handler ∈ journal.attached, handler.number < journal.next

/-- The calls made so far, those that failed included, the handlers of others, and the journal that is
reached. -/
inductive Reached (start : Journal) : List Call → List Handler → Journal → Prop
  | start : Reached start [] start.attached start
  | call {calls : List Call} {others : List Handler} {journal : Journal}
      (prior : Reached start calls others journal) (call : Call) :
      Reached start (calls ++ [call]) others (journal.setUp call.host call.setup).1
  | attach {calls : List Call} {others : List Handler} {journal : Journal}
      (prior : Reached start calls others journal) (sink : Sink) (level : Int) :
      Reached start calls (others ++ [⟨journal.next, sink, level⟩]) (journal.attach sink level)

/-- The journal with handlers of its own for a call with this log file, in place of those before. -/
def renewed (journal : Journal) (call : Call) (path : Path) : Journal :=
  { journal.withdraw.install call.setup.level (sinks call.host call.setup path) with
    level := call.setup.level
    path? := some path }

variable {start journal : Journal} {calls : List Call} {call : Call} {others : List Handler} {path : Path}

/-- Making the folder and the file changes nothing of the host but its storage. -/
theorem prepare_eq (host : Host) (setup : Setup) :
    ∃ storage, (prepare host setup).1 = { host with storage } := by
  unfold prepare
  split
  · exact ⟨host.storage, rfl⟩
  · split
    · exact ⟨_, rfl⟩
    · split
      · exact ⟨_, rfl⟩
      · exact ⟨_, rfl⟩

/-- All that a call can do: it finds the journal set up, or it fails behind the withdrawal of the old
handlers, or it replaces them. -/
theorem setUp_cases (journal : Journal) (call : Call) :
    (∃ path, journal.kept? call.setup = some path ∧
      journal.setUp call.host call.setup = (journal, call.host, .ok path)) ∨
    (journal.kept? call.setup = none ∧ ∃ host fault, call.target = .error fault ∧
      journal.setUp call.host call.setup = (journal.withdraw, host, .error fault)) ∨
    (journal.kept? call.setup = none ∧ ∃ host path, call.target = .ok path ∧
      journal.setUp call.host call.setup = (journal.renewed call path, host, .ok path)) := by
  unfold setUp Call.target
  cases hKept : journal.kept? call.setup with
  | some path => exact .inl ⟨path, rfl, rfl⟩
  | none =>
      obtain ⟨storage, hHost⟩ := prepare_eq call.host call.setup
      cases hPrepared : prepare call.host call.setup with
      | mk host outcome =>
          cases outcome with
          | error fault => exact .inr (.inl ⟨rfl, host, fault, rfl, rfl⟩)
          | ok path =>
              rw [hPrepared] at hHost
              subst hHost
              exact .inr (.inr ⟨rfl, _, path, rfl, rfl⟩)

/-- The attached handlers are the journal's own, in the order in which it keeps them, and those of
others. Each has a number below the next one, and no own handler has the number of another one. -/
structure Apart (others : List Handler) (journal : Journal) : Prop where
  own : journal.attached.filter (· ∉ others) = journal.installed
  foreign : journal.attached.filter (· ∈ others) = others
  numbered : ∀ handler ∈ journal.attached, handler.number < journal.next
  distinct : ∀ own ∈ journal.installed, ∀ other ∈ others, own.number ≠ other.number
  known : journal.installed ≠ [] → journal.path?.isSome = true

namespace Apart

theorem mem_attached (h : Apart others journal) {other : Handler} (hOther : other ∈ others) :
    other ∈ journal.attached := by
  rw [← h.foreign] at hOther
  exact (List.mem_filter.1 hOther).1

theorem mem_attached_own (h : Apart others journal) {own : Handler} (hOwn : own ∈ journal.installed) :
    own ∈ journal.attached := by
  rw [← h.own] at hOwn
  exact (List.mem_filter.1 hOwn).1

/-- Withdrawing takes the journal's own handlers away and no other one. -/
theorem attached_withdraw (h : Apart others journal) : journal.withdraw.attached = others := by
  calc journal.withdraw.attached = journal.attached.filter (· ∈ others) := by
        refine List.filter_congr fun handler hHandler => ?_
        by_cases hOther : handler ∈ others
        · have hNone : ∀ own ∈ journal.installed, ¬ own.number = handler.number :=
            fun own hOwn => h.distinct own hOwn handler hOther
          simpa [hOther] using hNone
        · have hOwn : handler ∈ journal.installed := by
            rw [← h.own]
            exact List.mem_filter.2 ⟨hHandler, decide_eq_true hOther⟩
          simpa [hOther] using ⟨handler, hOwn, rfl⟩
    _ = others := h.foreign

/-- Handlers with new numbers are the journal's own when they are put behind those of others. -/
theorem of_append (handlers : List Handler) (bound : Nat)
    (hAttached : journal.attached = others ++ handlers) (hInstalled : journal.installed = handlers)
    (hOthers : ∀ other ∈ others, other.number < bound)
    (hHandlers : ∀ own ∈ handlers, bound ≤ own.number ∧ own.number < journal.next)
    (hBound : bound ≤ journal.next)
    (hKnown : handlers ≠ [] → journal.path?.isSome = true) : Apart others journal := by
  have hDistinct : ∀ own ∈ handlers, ∀ other ∈ others, own.number ≠ other.number := by
    intro own hOwn other hOther hSame
    have hLow := hOthers other hOther
    have hHigh := (hHandlers own hOwn).1
    omega
  have hNew : ∀ own ∈ handlers, own ∉ others := fun own hOwn hOther =>
    hDistinct own hOwn own hOther rfl
  constructor
  · rw [hAttached, hInstalled, List.filter_append, List.filter_eq_nil_iff.2 (by simp),
      List.filter_eq_self.2 (by simpa using hNew), List.nil_append]
  · rw [hAttached, List.filter_append, List.filter_eq_self.2 (by simp),
      List.filter_eq_nil_iff.2 (by simpa using hNew), List.append_nil]
  · intro handler hHandler
    rw [hAttached] at hHandler
    rcases List.mem_append.1 hHandler with hOther | hOwn
    · exact Nat.lt_of_lt_of_le (hOthers handler hOther) hBound
    · exact (hHandlers handler hOwn).2
  · rwa [hInstalled]
  · rwa [hInstalled]

/-- Withdrawing takes away the journal's own handlers and no others. -/
theorem withdraw (h : Apart others journal) : Apart others journal.withdraw := by
  refine of_append [] journal.next ?_ rfl
    (fun other hOther => h.numbered other (h.mem_attached hOther)) ?_ (Nat.le_refl _) ?_
  · rw [h.attached_withdraw, List.append_nil]
  · simp
  · simp

/-- The new handlers are numbered from the next number on. -/
theorem number_of_mem_handlers {sinks : List Sink} {next : Nat} {level : Int} {handler : Handler}
    (h : handler ∈ (sinks.zipIdx next).map fun (sink, number) => (⟨number, sink, level⟩ : Handler)) :
    next ≤ handler.number ∧ handler.number < next + sinks.length := by
  obtain ⟨⟨sink, number⟩, hMem, rfl⟩ := List.mem_map.1 h
  obtain ⟨hLow, hHigh, -⟩ := List.mem_zipIdx hMem
  exact ⟨hLow, by omega⟩

/-- The handlers of a renewed journal have numbers that no other one has, so they can be told from
those of others. -/
theorem renewed (h : Apart others journal) (call : Call) (path : Path) :
    Apart others (journal.renewed call path) := by
  refine of_append _ journal.next ?_ (List.nil_append _)
    (fun other hOther => h.numbered other (h.mem_attached hOther))
    (fun own hOwn => number_of_mem_handlers hOwn) (Nat.le_add_right _ _) fun _ => rfl
  rw [← h.attached_withdraw]
  rfl

/-- A handler that somebody else attaches is one of the others. -/
theorem attach (h : Apart others journal) (sink : Sink) (level : Int) :
    Apart (others ++ [⟨journal.next, sink, level⟩]) (journal.attach sink level) := by
  have hOld : ∀ handler ∈ journal.attached, handler ≠ ⟨journal.next, sink, level⟩ := by
    rintro handler hHandler rfl
    exact Nat.lt_irrefl _ (h.numbered _ hHandler)
  have hSame : ∀ handler ∈ journal.attached,
      (handler ∈ others ++ [⟨journal.next, sink, level⟩] ↔ handler ∈ others) := by
    intro handler hHandler
    simp [hOld handler hHandler]
  constructor
  · have hOwn : journal.attached.filter (· ∉ others ++ [⟨journal.next, sink, level⟩]) =
        journal.installed := by
      rw [← h.own]
      exact List.filter_congr fun handler hHandler =>
        decide_eq_decide.2 (not_congr (hSame handler hHandler))
    rw [Journal.attach, List.filter_append, hOwn, List.filter_eq_nil_iff.2 (by simp), List.append_nil]
  · have hForeign : journal.attached.filter (· ∈ others ++ [⟨journal.next, sink, level⟩]) =
        others := by
      refine Eq.trans ?_ h.foreign
      exact List.filter_congr fun handler hHandler => decide_eq_decide.2 (hSame handler hHandler)
    rw [Journal.attach, List.filter_append, hForeign, List.filter_eq_self.2 (by simp)]
  · intro handler hHandler
    rcases List.mem_append.1 hHandler with hHandler | hNew
    · exact Nat.lt_succ_of_lt (h.numbered handler hHandler)
    · rw [List.mem_singleton.1 hNew]
      exact Nat.lt_succ_self _
  · intro own hOwn other hOther
    rcases List.mem_append.1 hOther with hOther | hNew
    · exact h.distinct own hOwn other hOther
    · rw [List.mem_singleton.1 hNew]
      exact Nat.ne_of_lt (h.numbered own (h.mem_attached_own hOwn))
  · exact h.known

/-- A setup keeps own handlers apart from those of others, whatever comes of it. -/
theorem setUp (h : Apart others journal) (call : Call) :
    Apart others (journal.setUp call.host call.setup).1 := by
  rcases setUp_cases journal call with
    ⟨path, -, hCall⟩ | ⟨-, host, fault, -, hCall⟩ | ⟨-, host, path, -, hCall⟩
  · rwa [hCall]
  · rw [hCall]
    exact h.withdraw
  · rw [hCall]
    exact h.renewed call path

end Apart

theorem Fresh.apart (h : start.Fresh) : Apart start.attached start := by
  refine Apart.of_append [] start.next ?_ h.installed h.numbered ?_ (Nat.le_refl _) ?_
  · simp
  · simp
  · simp

/-- Own handlers are told from those of others in every journal that is reached. The induction is on
the calls and attachments so far, and each of them keeps the two apart. -/
theorem Reached.apart (hFresh : start.Fresh) (h : Reached start calls others journal) :
    Apart others journal := by
  induction h with
  | start => exact hFresh.apart
  | call prior call ih => exact ih.setUp call
  | attach prior sink level ih => exact ih.attach sink level

/-- The journal writes to the log file of a call and, if that was wanted, to the error stream that was
in use. Its handlers and itself have the level of the call. -/
structure SetBy (call : Call) (path : Path) (journal : Journal) : Prop where
  target : call.target = .ok path
  file : journal.path? = some path
  level : journal.level = call.setup.level
  installed : ∃ number, journal.installed = ⟨number, .file path, call.setup.level⟩ ::
    if call.setup.console then [⟨number + 1, .stream call.host.stream, call.setup.level⟩] else []

/-- A journal that was renewed for a call is set by it. -/
theorem setBy_renewed (journal : Journal) (h : call.target = .ok path) :
    SetBy call path (journal.renewed call path) := by
  refine ⟨h, rfl, rfl, journal.next, ?_⟩
  simp only [renewed, install, sinks]
  cases call.setup.console <;> rfl

theorem kept?_of_not_installed (h : journal.installed = []) (setup : Setup) :
    journal.kept? setup = none := by
  simp [kept?, h]

theorem kept?_of_force {setup : Setup} (h : setup.force = true) : journal.kept? setup = none := by
  simp [kept?, h]

/-- A call that does not insist keeps the log file of a journal that is set up. -/
theorem kept?_of_installed (h : journal.installed ≠ []) {setup : Setup} (hForce : setup.force = false) :
    journal.kept? setup = journal.path? := by
  simp [kept?, h, hForce]

/-- A call that does not insist finds a journal that is set up and changes nothing. -/
theorem SetBy.setUp (h : SetBy call path journal) {setup : Setup} (hForce : setup.force = false)
    (host : Host) : journal.setUp host setup = (journal, host, .ok path) := by
  obtain ⟨number, hInstalled⟩ := h.installed
  have hSome : journal.installed ≠ [] := hInstalled ▸ List.cons_ne_nil _ _
  rw [Journal.setUp, kept?_of_installed hSome hForce, h.file]

/-- A call that does not find the journal set up takes effect when its log file can be made. -/
theorem setBy_setUp (hKept : journal.kept? call.setup = none) (h : call.target = .ok path) :
    SetBy call path (journal.setUp call.host call.setup).1 := by
  rcases setUp_cases journal call with
    ⟨other, hFound, -⟩ | ⟨-, host, fault, hFault, -⟩ | ⟨-, host, other, hTarget, hCall⟩
  · cases hKept.symm.trans hFound
  · cases h.symm.trans hFault
  · obtain rfl := Except.ok.inj (h.symm.trans hTarget)
    rw [hCall]
    exact setBy_renewed journal h

/-- One more call takes effect when it is the first one or insists. -/
theorem effective_append (calls : List Call) (call : Call) :
    effective (calls ++ [call]) =
      effective calls ++ if calls.isEmpty || call.setup.force then [call] else [] := by
  cases calls with
  | nil => rfl
  | cons first later =>
      cases hForce : call.setup.force <;> simp [effective, hForce]

/-- The journal is as the last call that took effect has left it, whatever other calls came later. -/
theorem Reached.setBy (hFresh : start.Fresh) (h : Reached start calls others journal)
    (hMade : ∀ call ∈ effective calls, ∃ path, call.target = .ok path) :
    (calls = [] → journal.installed = []) ∧
      ∀ last ∈ (effective calls).getLast?, ∃ path, SetBy last path journal := by
  induction h with
  | start => exact ⟨fun _ => hFresh.installed, by simp [effective]⟩
  | attach prior sink level ih =>
      obtain ⟨hNone, hLast⟩ := ih hMade
      refine ⟨hNone, fun last hMem => ?_⟩
      obtain ⟨path, hSet⟩ := hLast last hMem
      exact ⟨path, hSet.target, hSet.file, hSet.level, hSet.installed⟩
  | @call calls others journal prior call ih =>
      -- A call takes effect as the first one or by insisting. Any other one finds the journal set up.
      rw [effective_append] at hMade ⊢
      obtain ⟨hNone, hLast⟩ := ih fun earlier hMem => hMade earlier (List.mem_append_left _ hMem)
      refine ⟨fun hNil => absurd hNil (by simp), fun last hMem => ?_⟩
      by_cases hEffective : (calls.isEmpty || call.setup.force) = true
      · rw [if_pos hEffective] at hMade hMem
        rw [List.getLast?_concat, Option.mem_some_iff] at hMem
        subst hMem
        obtain ⟨path, hTarget⟩ := hMade call (List.mem_append_right _ (List.mem_singleton_self call))
        refine ⟨path, setBy_setUp ?_ hTarget⟩
        rcases Bool.or_eq_true_iff.1 hEffective with hEmpty | hForce
        · exact kept?_of_not_installed (hNone (List.isEmpty_iff.1 hEmpty)) _
        · exact kept?_of_force hForce
      · rw [if_neg hEffective, List.append_nil] at hMem
        obtain ⟨path, hSet⟩ := hLast last hMem
        refine ⟨path, ?_⟩
        have hForce : call.setup.force = false := by
          simp only [Bool.or_eq_true, not_or, Bool.not_eq_true] at hEffective
          exact hEffective.2
        rwa [hSet.setUp hForce]

/-- As long as log files can be made, the journal's own handlers are those for the last call that took
effect, one for its log file and at most one for the error stream. Those of others stay. A later call
that does not insist changes nothing and answers that log file. -/
theorem own_handlers (hFresh : start.Fresh) (h : Reached start calls others journal)
    (hMade : ∀ call ∈ effective calls, ∃ path, call.target = .ok path) :
    journal.attached.filter (· ∉ others) = journal.installed ∧
      journal.attached.filter (· ∈ others) = others ∧
      (calls = [] → journal.installed = []) ∧
      (calls ≠ [] → ∃ last path, (effective calls).getLast? = some last ∧ SetBy last path journal ∧
        ∀ later : Call, later.setup.force = false →
          journal.setUp later.host later.setup = (journal, later.host, .ok path)) := by
  have hApart := h.apart hFresh
  obtain ⟨hNone, hLast⟩ := h.setBy hFresh hMade
  refine ⟨hApart.own, hApart.foreign, hNone, fun hCalls => ?_⟩
  obtain ⟨first, later, rfl⟩ := List.exists_cons_of_ne_nil hCalls
  have hMem := List.getLast?_eq_some_getLast (List.cons_ne_nil first (later.filter (·.setup.force)))
  obtain ⟨path, hSet⟩ := hLast _ hMem
  exact ⟨_, path, hMem, hSet, fun call hForce => hSet.setUp hForce call.host⟩

/-- The second call finds the journal set up, and the third one insists. -/
theorem own_handlers_of_insisting :
    ∃ journal : Journal, ({} : Journal).Fresh ∧
      Reached {} [⟨{ home := { rooted := true } }, {}⟩,
          ⟨{ home := { rooted := true } }, { level := 10 }⟩,
          ⟨{ home := { rooted := true } }, { level := 40, console := false, force := true }⟩]
        [⟨0, .stream 7, 0⟩] journal ∧
      journal.attached.filter (· ∉ [⟨0, .stream 7, 0⟩]) =
        [⟨3, .file ⟨true, [".textcontent", "logs", "textcontent.log"]⟩, 40⟩] ∧
      journal.attached.filter (· ∈ [(⟨0, .stream 7, 0⟩ : Handler)]) = [⟨0, .stream 7, 0⟩] := by
  have hFresh : ({} : Journal).Fresh := ⟨rfl, by simp⟩
  have hReached := Reached.call (.call (.call (.attach (@Reached.start {}) (.stream 7) 0)
    ⟨{ home := { rooted := true } }, {}⟩) ⟨{ home := { rooted := true } }, { level := 10 }⟩)
    ⟨{ home := { rooted := true } }, { level := 40, console := false, force := true }⟩
  have hMade : ∀ call ∈ effective [⟨{ home := { rooted := true } }, {}⟩,
      ⟨{ home := { rooted := true } }, { level := 10 }⟩,
      ⟨{ home := { rooted := true } }, { level := 40, console := false, force := true }⟩],
      ∃ path, call.target = .ok path :=
    List.forall_mem_cons.2 ⟨⟨_, rfl⟩, List.forall_mem_cons.2 ⟨⟨_, rfl⟩, by simp⟩⟩
  obtain ⟨hOwn, hForeign, -⟩ := own_handlers hFresh hReached hMade
  exact ⟨_, hFresh, hReached, hOwn, hForeign⟩

/-- A call whose log file cannot be made has withdrawn the own handlers by then, and that is all it
has done to the journal. -/
theorem setUp_of_fault {fault : Fault} (hKept : journal.kept? call.setup = none)
    (h : call.target = .error fault) :
    ∃ host, journal.setUp call.host call.setup = (journal.withdraw, host, .error fault) := by
  rcases setUp_cases journal call with
    ⟨path, hFound, -⟩ | ⟨-, host, other, hFault, hCall⟩ | ⟨-, host, path, hTarget, -⟩
  · cases hKept.symm.trans hFound
  · obtain rfl := Except.error.inj (h.symm.trans hFault)
    exact ⟨host, hCall⟩
  · cases h.symm.trans hTarget

theorem withdraw_eq_self_iff : journal.withdraw = journal ↔ journal.installed = [] := by
  constructor
  · intro h
    rw [← h]
    rfl
  · intro h
    obtain ⟨level, attached, installed, path?, next⟩ := journal
    subst h
    simp [withdraw]

/-- A call that fails has taken the journal's own handlers away, although the journal still names their
log file. It leaves the journal as it was only when there were none, and finds some only when it
insists. -/
theorem withdrawn_of_fault (hFresh : start.Fresh) (h : Reached start calls others journal)
    {after : Journal} {host : Host} {fault : Fault}
    (hFails : journal.setUp call.host call.setup = (after, host, .error fault)) :
    after.installed = [] ∧ after.attached = others ∧ after.level = journal.level ∧
      after.path? = journal.path? ∧ (after = journal ↔ journal.installed = []) ∧
      (journal.installed ≠ [] → call.setup.force = true) := by
  have hApart := h.apart hFresh
  rcases setUp_cases journal call with
    ⟨path, -, hCall⟩ | ⟨hKept, other, cause, -, hCall⟩ | ⟨-, other, path, -, hCall⟩
  · cases hFails.symm.trans hCall
  · -- The path stays known, so handlers of the journal's own stop every call that does not insist.
    obtain ⟨rfl, -⟩ := Prod.mk.inj (hFails.symm.trans hCall)
    refine ⟨rfl, hApart.attached_withdraw, rfl, rfl, withdraw_eq_self_iff, fun hInstalled => ?_⟩
    cases hForce : call.setup.force with
    | true => rfl
    | false =>
        have hPath := hApart.known hInstalled
        rw [kept?_of_installed hInstalled hForce] at hKept
        rw [hKept] at hPath
        cases hPath
  · cases hFails.symm.trans hCall

/-- A host on which a file stands where the folder for logs is to be. -/
def blockedHost : Host where
  home := { rooted := true }
  storage := ⟨[(⟨true, [".textcontent"]⟩, .folder), (⟨true, [".textcontent", "logs"]⟩, .file [])]⟩

/-- No log file can be made on this host, since the folder for it cannot be. -/
theorem target_blockedHost : Call.target ⟨blockedHost, { force := true }⟩ =
    .error (.fileInPlace (Path.text ⟨true, [".textcontent", "logs"]⟩)) := rfl

/-- The call insists, and a file stands where its folder is to be. -/
theorem withdrawn_of_fault_insisting :
    ∃ journal after host fault, ({} : Journal).Fresh ∧
      Reached {} [⟨{ home := { rooted := true } }, {}⟩] [⟨0, .stream 7, 0⟩] journal ∧
      journal.attached.length = 3 ∧
      journal.setUp blockedHost { force := true } = (after, host, .error fault) ∧
      after.installed = [] ∧ after.attached = [⟨0, .stream 7, 0⟩] ∧ after.path? = journal.path? := by
  have hFresh : ({} : Journal).Fresh := ⟨rfl, by simp⟩
  have hReached := Reached.call (.attach (@Reached.start {}) (.stream 7) 0)
    ⟨{ home := { rooted := true } }, {}⟩
  obtain ⟨host, hFails⟩ := setUp_of_fault (kept?_of_force rfl) target_blockedHost
  obtain ⟨hInstalled, hAttached, -, hPath, -⟩ := withdrawn_of_fault hFresh hReached hFails
  exact ⟨_, _, host, _, hFresh, hReached, rfl, hFails, hInstalled, hAttached, hPath⟩

/-- A journal that is set up has handlers, and a call that fails leaves none of them. -/
theorem handlers_lost :
    ∃ journal after host, Reached {} [⟨{ home := { rooted := true } }, {}⟩] [] journal ∧
      journal.setUp blockedHost { force := true } =
        (after, host, .error (.fileInPlace (Path.text ⟨true, [".textcontent", "logs"]⟩))) ∧
      after.attached ≠ journal.attached ∧ after.installed ≠ journal.installed := by
  have hReached := Reached.call (@Reached.start {}) ⟨{ home := { rooted := true } }, {}⟩
  obtain ⟨host, hFails⟩ := setUp_of_fault (kept?_of_force rfl) target_blockedHost
  exact ⟨_, _, host, hReached, hFails, nofun, nofun⟩

end SourceView.Journal
