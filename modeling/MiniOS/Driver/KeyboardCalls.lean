import MiniOS.Driver.KeyboardBuffer

/-!
# What the calls of the reader read

The trace tells which bytes each call of the reader obtained.  In every
interleaving these are the words its code reads, and with enough bytes waiting
the reader ends a call by its own steps.
-/

namespace MiniOS

open RingBuffer Scan

/-- The bytes that each ended call obtained, and the call under way. -/
structure CallLog where
  ended : List (List (BitVec 8))
  part : List (BitVec 8)

namespace CallLog

def observe (log : CallLog) : KeyboardEvent → CallLog
  | .arrived _ => log
  | .called => log
  | .obtained scanCode => { log with part := log.part ++ [scanCode] }
  | .returned => ⟨log.ended ++ [log.part], []⟩

def ofTrace (trace : List KeyboardEvent) : CallLog :=
  trace.foldl observe ⟨[], []⟩

@[simp] theorem ofTrace_concat (trace : List KeyboardEvent)
    (event : KeyboardEvent) :
    ofTrace (trace ++ [event]) = (ofTrace trace).observe event := by
  simp [ofTrace]

end CallLog

def arrivals (actions : List KeyboardAction) : List (BitVec 8) :=
  actions.filterMap fun
    | .interrupt scanCode => some scanCode
    | .read => none

namespace Keyboard

variable {State : Type} {call : State → ByteScan State}
variable {m : Keyboard State} {initial state : State}

def waiting (m : Keyboard State) : List (BitVec 8) := (history m.trace).waiting

def log (m : Keyboard State) : CallLog := .ofTrace m.trace

/-- The reader stands in a call from `state` after the bytes `part`. -/
def StandsAt (call : State → ByteScan State) (state : State)
    (part : List (BitVec 8)) : Reader State → Prop
  | .idle now => now = state ∧ part = []
  | .running scan => (call state).feed part = some scan
  | .entering next => (call state).feed part = some (.get next)

/-- The ended calls led from `initial` to `state`, from which the call under
way started. -/
structure Reads (call : State → ByteScan State) (initial state : State)
    (m : Keyboard State) : Prop where
  obtained : (history m.trace).obtained = m.log.ended.flatten ++ m.log.part
  ended : calls call initial m.log.ended = some state
  stands : StandsAt call state m.log.part m.reader
  /-- A call starts with a byte waiting. -/
  began : m.log.part = [] →
    (∃ now, m.reader = .idle now) ∨ 0 < m.kbIn.count

theorem start_reads (call : State → ByteScan State) (kbIn : KbInput)
    (initial : State) :
    Reads call initial initial (start kbIn initial) :=
  ⟨rfl, rfl, ⟨rfl, rfl⟩, fun _ => .inl ⟨initial, rfl⟩⟩

theorem push_obtained (q : Fifo (BitVec 8)) (scanCode : BitVec 8) :
    (q.push kbInBytes scanCode).obtained = q.obtained := by
  unfold Fifo.push
  split <;> rfl

theorem Reads.interrupt (reads : Reads call initial state m)
    (scanCode : BitVec 8) :
    Reads call initial state (m.interrupt scanCode) where
  obtained := by
    simp only [Keyboard.interrupt, log, history_concat, MiniOS.observe,
      push_obtained, CallLog.ofTrace_concat]
    exact reads.obtained
  ended := by
    simp only [Keyboard.interrupt, log, CallLog.ofTrace_concat]
    exact reads.ended
  stands := by
    simp only [Keyboard.interrupt, log, CallLog.ofTrace_concat]
    exact reads.stands
  began := by
    simp only [Keyboard.interrupt, log, CallLog.ofTrace_concat]
    exact fun none => (reads.began none).imp_right
      (keyboardHandler_count_pos scanCode)

theorem Reads.read (reads : Reads call initial state m) :
    ∃ state', Reads call initial state' (m.read call) := by
  have same := reads
  obtain ⟨obtained, ended, stands, began⟩ := reads
  unfold Keyboard.read
  split
  · rename_i now reader
    rw [reader] at stands
    obtain ⟨rfl, none⟩ := stands
    split
    · rename_i positive
      refine ⟨now, ?_, ?_, ?_, fun _ => .inr positive⟩
      · simpa [log, MiniOS.observe, CallLog.observe] using obtained
      · simpa [log, CallLog.observe] using ended
      · simp only [log, CallLog.ofTrace_concat, CallLog.observe, StandsAt]
        exact congrArg (feed (call now)) none
    · exact ⟨_, same⟩
  · rename_i after reader
    rw [reader] at stands
    refine ⟨after, ?_, ?_, ⟨rfl, ?_⟩, fun _ => .inl ⟨after, rfl⟩⟩
    · simpa [log, MiniOS.observe, CallLog.observe] using obtained
    · simp only [log, CallLog.ofTrace_concat, CallLog.observe]
      exact (calls_concat ended _).trans (result_eq_some.mpr stands)
    · simp [log, CallLog.observe]
  · rename_i next reader
    rw [reader] at stands
    split
    · exact ⟨_, same⟩
    · exact ⟨state, obtained, ended, stands, fun _ => .inr (by simp only; omega)⟩
  · rename_i next reader
    rw [reader] at stands
    refine ⟨state, ?_, ?_, ?_, ?_⟩
    · simp only [log, history_concat, MiniOS.observe, Fifo.pop,
        CallLog.ofTrace_concat, CallLog.observe]
      rw [obtained, List.append_assoc]
      rfl
    · simp only [log, CallLog.ofTrace_concat, CallLog.observe]
      exact ended
    · simp only [log, CallLog.ofTrace_concat, CallLog.observe]
      exact feed_concat stands _
    · simp [log, CallLog.observe]

theorem Reads.run (reads : Reads call initial state m)
    (actions : List KeyboardAction) :
    ∃ state', Reads call initial state' (m.run call actions) := by
  induction actions generalizing m state with
  | nil => exact ⟨state, reads⟩
  | cons action actions induction =>
      cases action with
      | interrupt scanCode => exact induction (reads.interrupt scanCode)
      | read =>
          obtain ⟨next, reads⟩ := reads.read
          exact induction reads

/-! ## The reader alone -/

def ReadsOn (call : State → ByteScan State) (m m' : Keyboard State) : Prop :=
  ∃ steps, m' = m.run call (List.replicate steps .read)

theorem ReadsOn.refl (m : Keyboard State) : ReadsOn call m m := ⟨0, rfl⟩

theorem ReadsOn.head {m' : Keyboard State}
    (rest : ReadsOn call (m.read call) m') : ReadsOn call m m' := by
  obtain ⟨steps, rfl⟩ := rest
  exact ⟨steps + 1, rfl⟩

theorem ReadsOn.trans {m' m'' : Keyboard State} (first : ReadsOn call m m')
    (second : ReadsOn call m' m'') : ReadsOn call m m'' := by
  obtain ⟨steps, rfl⟩ := first
  obtain ⟨others, rfl⟩ := second
  refine ⟨steps + others, ?_⟩
  rw [run, run, run, ← List.foldl_append, List.replicate_append_replicate]

section Alone

variable {scan : ByteScan State} {next : BitVec 8 → ByteScan State}
variable {item : BitVec 8} {word rest : List (BitVec 8)}

theorem Consistent.count_pos (consistent : m.Consistent)
    (waits : m.waiting = item :: rest) : 0 < m.kbIn.count := by
  have count := consistent.buffers.count
  have length := congrArg List.length waits
  simp only [waiting, List.length_cons] at length
  omega

theorem Consistent.read_entering (consistent : m.Consistent)
    (call : State → ByteScan State)
    (entering : m.reader = .entering next)
    (waits : m.waiting = item :: rest) :
    (m.read call).reader = .running (next item) ∧
      (m.read call).waiting = rest ∧
      (m.read call).log = ⟨m.log.ended, m.log.part ++ [item]⟩ := by
  have oldest := (consistent.buffers.takeByte waits).1
  have remains := (consistent.buffers.ordered.pop waits).2
  simp only [Keyboard.read, entering, oldest, waiting, log, history_concat,
    CallLog.ofTrace_concat, true_and]
  exact ⟨remains, rfl⟩

theorem Consistent.ends_call (consistent : m.Consistent)
    (running : m.reader = .running scan ∨
      ∃ next, m.reader = .entering next ∧ scan = .get next)
    (waits : m.waiting = word ++ rest)
    (reads : scan.feed word = some (.done state)) :
    ∃ m', ReadsOn call m m' ∧ m'.reader = .idle state ∧ m'.waiting = rest ∧
      m'.log = ⟨m.log.ended ++ [m.log.part ++ word], []⟩ := by
  induction word generalizing m scan with
  | nil =>
      cases reads
      obtain running | ⟨next, -, done⟩ := running
      · refine ⟨m.read call, (ReadsOn.refl _).head, ?_, ?_, ?_⟩
        · simp [Keyboard.read, running]
        · simpa [Keyboard.read, running, waiting, MiniOS.observe] using waits
        · simp [Keyboard.read, running, log, CallLog.observe]
      · cases done
  | cons item word induction =>
      cases scan with
      | done result => cases reads
      | get next =>
          have entered : ∀ m : Keyboard State, m.Consistent →
              m.reader = .entering next → m.waiting = item :: word ++ rest →
              ∃ m', ReadsOn call m m' ∧ m'.reader = .idle state ∧
                m'.waiting = rest ∧
                m'.log = ⟨m.log.ended ++ [m.log.part ++ item :: word], []⟩ := by
            intro m consistent entering waits
            obtain ⟨running, remains, logged⟩ :=
              consistent.read_entering call entering waits
            obtain ⟨m', path, idle, left, ended⟩ :=
              induction (consistent.read call) (.inl running) remains reads
            refine ⟨m', path.head, idle, left, ?_⟩
            rw [ended, logged]
            simp
          obtain running | ⟨other, entering, same⟩ := running
          · have positive := consistent.count_pos waits
            have tested : m.read call = { m with reader := .entering next } := by
              simp only [Keyboard.read, running]
              rw [if_neg (by omega)]
            have after := consistent.read call
            rw [tested] at after
            obtain ⟨m', path, ends⟩ := entered _ after rfl waits
            exact ⟨m', ReadsOn.head (tested ▸ path), ends⟩
          · cases same
            exact entered m consistent entering waits

theorem Consistent.of_readsOn {m' : Keyboard State}
    (consistent : m.Consistent) (path : ReadsOn call m m') :
    m'.Consistent := by
  obtain ⟨steps, rfl⟩ := path
  exact consistent.run call _

/-- Calls that find their words waiting end one after another. -/
theorem Consistent.ends_calls (consistent : m.Consistent)
    (asks : ∀ state, ∃ next, call state = .get next)
    {words : List (List (BitVec 8))} {after : State}
    (idle : m.reader = .idle state) (between : m.log.part = [])
    (waits : m.waiting = words.flatten)
    (whole : calls call state words = some after) :
    ∃ m', ReadsOn call m m' ∧ m'.reader = .idle after ∧ m'.waiting = [] ∧
      m'.log = ⟨m.log.ended ++ words, []⟩ := by
  induction words generalizing m state with
  | nil =>
      cases whole
      refine ⟨m, .refl m, idle, waits, ?_⟩
      rw [List.append_nil, ← between]
  | cons word words induction =>
      rw [calls_cons, Option.bind_eq_some_iff] at whole
      obtain ⟨middle, read, whole⟩ := whole
      have ends := result_eq_some.mp read
      obtain ⟨next, asked⟩ := asks state
      cases word with
      | nil =>
          rw [asked] at ends
          cases ends
      | cons item word =>
          have positive := consistent.count_pos waits
          have started : m.read call =
              { m with
                reader := .running (call state)
                trace := m.trace ++ [.called] } := by
            simp only [Keyboard.read, idle]
            rw [if_pos positive]
          have running : (m.read call).reader = .running (call state) := by
            rw [started]
          have sameWaiting : (m.read call).waiting =
              (item :: word) ++ words.flatten := by
            rw [started, waiting, history_concat]
            exact waits
          have sameLog : (m.read call).log = m.log := by
            rw [started, log, CallLog.ofTrace_concat]
            rfl
          obtain ⟨m₁, path, idle, left, logged⟩ :=
            (consistent.read call).ends_call (.inl running) sameWaiting ends
          obtain ⟨m₂, path', finished⟩ :=
            induction ((consistent.read call).of_readsOn path) idle
              (by rw [logged]) left whole
          refine ⟨m₂, path.head.trans path', ?_⟩
          rwa [logged, sameLog, between, List.nil_append, List.append_assoc]
            at finished

/-- Once all bytes wait, the reader ends the call under way and those that
follow. -/
theorem Reads.ends (reads : Reads call initial state m)
    (consistent : m.Consistent)
    (asks : ∀ state, ∃ next, call state = .get next)
    {words : List (List (BitVec 8))} {after : State}
    (waits : m.log.part ++ m.waiting = words.flatten)
    (begun : (m.log.part = [] ∧ words = []) ∨
      ∃ word tail, words = word :: tail ∧ m.log.part <+: word)
    (whole : calls call state words = some after) :
    ∃ m', ReadsOn call m m' ∧ m'.reader = .idle after ∧ m'.waiting = [] ∧
      m'.log = ⟨m.log.ended ++ words, []⟩ := by
  have stands := reads.stands
  have inCall : ∀ scan : ByteScan State,
      (m.reader = .running scan ∨
        ∃ next, m.reader = .entering next ∧ scan = .get next) →
      (call state).feed m.log.part = some scan →
      ∃ m', ReadsOn call m m' ∧ m'.reader = .idle after ∧ m'.waiting = [] ∧
        m'.log = ⟨m.log.ended ++ words, []⟩ := by
    intro scan running fed
    obtain ⟨none, rfl⟩ | ⟨word, tail, rfl, ⟨rest, rfl⟩⟩ := begun
    · obtain ⟨now, idle⟩ | positive := reads.began none
      · simp [idle] at running
      · obtain ⟨first, others, waiting⟩ :=
          consistent.buffers.waiting_cons positive
        simp [none, Keyboard.waiting, waiting] at waits
    · rw [calls_cons, Option.bind_eq_some_iff] at whole
      obtain ⟨middle, read, whole⟩ := whole
      have restEnds := result_eq_some.mp read
      rw [feed_append, fed] at restEnds
      rw [List.flatten_cons, List.append_assoc, List.append_cancel_left_eq]
        at waits
      obtain ⟨m₁, path, idle, left, logged⟩ :=
        consistent.ends_call running waits restEnds
      obtain ⟨m₂, path', finished⟩ := (consistent.of_readsOn path).ends_calls
        asks idle (by rw [logged]) left whole
      refine ⟨m₂, path.trans path', ?_⟩
      rwa [logged, List.append_assoc] at finished
  cases reader : m.reader with
  | idle now =>
      rw [reader] at stands
      obtain ⟨rfl, none⟩ := stands
      rw [none, List.nil_append] at waits
      exact consistent.ends_calls asks reader none waits whole
  | running scan =>
      rw [reader] at stands
      exact inCall scan (.inl reader) stands
  | entering next =>
      rw [reader] at stands
      exact inCall (.get next) (.inr ⟨next, reader, rfl⟩) stands

end Alone

/-- Where the calls stand in a stream of which no byte was dropped. -/
structure InStream (call : State → ByteScan State) (initial : State)
    (words : List (List (BitVec 8))) (m : Keyboard State) : Prop where
  /-- The ended calls read the first words, the one under way is in the next. -/
  split : ∃ unread, words = m.log.ended ++ unread ∧
    ((m.log.part = [] ∧ unread = []) ∨
      ∃ word tail, unread = word :: tail ∧ m.log.part <+: word)
  /-- Between two calls the state is that of the ended ones. -/
  between : ∀ state, m.reader = .idle state →
    calls call initial m.log.ended = some state

theorem run_inStream (asks : ∀ state, ∃ next, call state = .get next)
    (kbIn : KbInput) {words : List (List (BitVec 8))} {after : State}
    (whole : calls call initial words = some after)
    (actions : List KeyboardAction)
    (delivered : arrivals actions <+: words.flatten)
    (kept : (history ((start kbIn initial).run call actions).trace).accepted =
      arrivals actions) :
    InStream call initial words ((start kbIn initial).run call actions) ∧
      (arrivals actions = words.flatten →
        ∃ m', ReadsOn call ((start kbIn initial).run call actions) m' ∧
          m'.reader = .idle after ∧ m'.log = ⟨words, []⟩) := by
  have consistent := (start_consistent kbIn initial).run call actions
  obtain ⟨state, reads⟩ := (start_reads call kbIn initial).run actions
  generalize (start kbIn initial).run call actions = m at *
  have accepted := consistent.buffers.ordered.accepted_eq
  rw [kept, reads.obtained] at accepted
  have underWay : ∃ later, (call state).feed m.log.part = some later := by
    have stands := reads.stands
    cases reader : m.reader <;> rw [reader] at stands
    case idle now =>
      rw [stands.2]
      exact ⟨_, rfl⟩
    case running scan => exact ⟨_, stands⟩
    case entering next => exact ⟨_, stands⟩
  obtain ⟨later, fed⟩ := underWay
  have arrived : m.log.ended.flatten ++ m.log.part <+: arrivals actions :=
    ⟨_, accepted.symm⟩
  obtain ⟨unread, split, place⟩ :=
    calls_split asks whole reads.ended fed (arrived.trans delivered)
  refine ⟨⟨⟨unread, split, place⟩, ?_⟩, ?_⟩
  · intro now idle
    have stands := reads.stands
    rw [idle] at stands
    rw [stands.1]
    exact reads.ended
  · intro all
    have waits : m.log.part ++ m.waiting = unread.flatten := by
      rw [all, split, List.flatten_append, List.append_assoc,
        List.append_cancel_left_eq] at accepted
      exact accepted.symm
    have rest : calls call state unread = some after := by
      rw [split, calls_append reads.ended] at whole
      exact whole
    obtain ⟨m', path, idle, -, logged⟩ :=
      reads.ends consistent asks waits place rest
    exact ⟨m', path, idle, by rw [logged, split]⟩

end Keyboard

end MiniOS
