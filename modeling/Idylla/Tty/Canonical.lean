import Idylla.Tty.Input

namespace Idylla.Tty

open Idylla.Lib Idylla.Kernel

/-!
# Lines of a terminal in canonical mode

What the readers of a terminal receive against an editor that knows no timing:
it works on the typed characters alone, and gives out finished lines.
-/

/-- The finished lines, with what ends them, and the line being typed. -/
structure Edited where
  lines : List (BitVec 8)
  current : List (BitVec 8)

/-- The line loses its last character. -/
def Edited.erase (edited : Edited) : Edited :=
  { edited with current := edited.current.dropLast }

namespace Termios

variable (termios : Termios)

/-- The character ends a line. -/
def Ends (char : BitVec 8) : Prop :=
  char = newline ∨ IsControl char termios.veof

instance (char : BitVec 8) : Decidable (termios.Ends char) :=
  inferInstanceAs (Decidable (_ ∨ _))

/-- The line gets a character, which may be its last one. -/
def store (edited : Edited) (char : BitVec 8) : Edited :=
  if termios.Ends char then
    { lines := edited.lines ++ edited.current ++ [char], current := [] }
  else
    { edited with current := edited.current ++ [char] }

/-- The editor on one character. -/
def editChar (edited : Edited) (char : BitVec 8) : Edited :=
  if char = backspace ∨ IsControl char termios.verase then edited.erase
  else termios.store edited char

/-- The editor on all that has been typed. -/
def edit (typed : List (BitVec 8)) : Edited :=
  (typed.filterMap termios.translate).foldl termios.editChar
    { lines := [], current := [] }

/-- Canonical mode with echo. -/
structure Canonical : Prop where
  icanon : termios.icanon = true
  echo : termios.echo = true
  echoe : termios.echoe = true

end Termios

/-- The edit that `tty_input` has yet to make. -/
def InputPhase.edit : InputPhase → Option QueueEdit
  | .idle => none
  | .waking edit => edit
  | .editing edit => some edit
  | .unqueuing => some .erase

/-- The character that `tty_input` has yet to store. -/
def InputPhase.pending (phase : InputPhase) : List (BitVec 8) :=
  match phase.edit with
  | some (.store data) => [data]
  | _ => []

/--
What is asked of the keyboard: no signal or flow-control characters, and lines
that are consumed before the queue fills.
-/
def TypesPlainly (termios : Termios) (system : TtySystem) : TtyLabel → Prop
  | .fetch char =>
    ∀ translated, termios.translate char = some translated →
      ∀ control ∈ [termios.vstop, termios.vstart, termios.vintr, termios.vquit],
        ¬ IsControl translated control
  | .input =>
    ∀ data, system.input = .editing (.store data) →
      ttyInq system.secQ data ≠ none
  | _ => True

/--
What the code does not see to.  `VERASE` is typed behind a finished line only.
A backspace finds the queue empty, or takes back a character of the unfinished
line from another cell than the last one of the ring.  A call takes a character
only where the queue holds one and a line has been finished, and takes its
characters without another call between them.
-/
def KeepsLines (termios : Termios) (system : TtySystem) : TtyLabel → Prop
  | .fetch char =>
    ∀ translated, termios.translate char = some translated →
      IsControl translated termios.verase →
        ∀ last, system.secQ.items.getLast? = some last → termios.Ends last
  | .input =>
    system.input = .unqueuing →
      ∀ last, system.secQ.items.getLast? = some last →
        ¬ termios.Ends last ∧ system.secQ.inPtr ≠ 0
  | .read thread _ =>
    ∀ read, system.reads thread = some read → read.phase = .taking →
      system.secQ.items ≠ [] ∧
        (∃ char ∈ system.secQ.items ++ system.input.pending,
          termios.Ends char) ∧
        (read.received = [] ∨ system.lastTaker = some thread)
  | _ => True

/-- An edit of the queue as one of the line. -/
def Termios.applyEdit (termios : Termios)
    (edited : Edited) : Option QueueEdit → Edited
  | none => edited
  | some .erase => edited.erase
  | some (.store data) => termios.store edited data

/-- Only what ends a line is behind the end of a line. -/
structure Edited.WellFormed (termios : Termios) (edited : Edited) : Prop where
  lines : ∀ last, edited.lines.getLast? = some last → termios.Ends last
  current : ∀ char ∈ edited.current, ¬ termios.Ends char

namespace Edited.WellFormed

variable {termios : Termios} {edited : Edited}

theorem erase (wellFormed : edited.WellFormed termios) :
    edited.erase.WellFormed termios :=
  ⟨wellFormed.lines,
    fun char member => wellFormed.current char (List.dropLast_subset _ member)⟩

variable (wellFormed : edited.WellFormed termios)

include wellFormed

theorem store (char : BitVec 8) :
    (termios.store edited char).WellFormed termios := by
  unfold Termios.store
  split
  next ends =>
    refine ⟨fun last isLast => ?_, fun char member => by cases member⟩
    rw [List.getLast?_concat, Option.some.injEq] at isLast
    rwa [← isLast]
  next notEnds =>
    refine ⟨wellFormed.lines, fun other member => ?_⟩
    rcases List.mem_append.mp member with member | member
    · exact wellFormed.current other member
    · rwa [List.mem_singleton.mp member]

variable {taken queue : List (BitVec 8)}

theorem length_lt (shares : taken ++ queue = edited.lines ++ edited.current)
    {char : BitVec 8} (member : char ∈ queue) (ends : termios.Ends char) :
    taken.length < edited.lines.length := by
  refine Nat.lt_of_not_le fun allTaken => ?_
  have isQueue :
      queue = edited.current.drop (taken.length - edited.lines.length) := by
    rw [← @List.drop_left _ taken queue, shares, List.drop_append,
      List.drop_eq_nil_of_le allTaken, List.nil_append]
  rw [isQueue] at member
  exact wellFormed.current char (List.mem_of_mem_drop member) ends

theorem current_ne_nil
    (shares : taken ++ queue = edited.lines ++ edited.current) {last : BitVec 8}
    (isLast : queue.getLast? = some last) (notEnds : ¬ termios.Ends last) :
    edited.current ≠ [] := by
  intro isEmpty
  rw [isEmpty, List.append_nil] at shares
  refine notEnds (wellFormed.lines last ?_)
  rw [← shares, List.getLast?_append, isLast]
  rfl

theorem shares_erase (shares : taken ++ queue = edited.lines ++ edited.current)
    {last : BitVec 8} (isLast : queue.getLast? = some last)
    (notEnds : ¬ termios.Ends last) :
    taken ++ queue.dropLast = edited.erase.lines ++ edited.erase.current := by
  have typing := wellFormed.current_ne_nil shares isLast notEnds
  have nonempty : queue ≠ [] := by
    rintro rfl
    cases isLast
  show _ = edited.lines ++ edited.current.dropLast
  rw [← List.dropLast_append_of_ne_nil nonempty,
    ← List.dropLast_append_of_ne_nil typing, shares]

theorem erase_eq (shares : taken ++ queue = edited.lines ++ edited.current)
    (finished : taken <+: edited.lines)
    (behindLine : ∀ last, queue.getLast? = some last → termios.Ends last) :
    edited.erase = edited := by
  have isEmpty : edited.current = [] := by
    cases isLast : queue.getLast? with
    | none =>
      have bounded := finished.length_le
      rw [List.getLast?_eq_none_iff.mp isLast, List.append_nil] at shares
      rw [shares, List.length_append] at bounded
      exact List.length_eq_zero_iff.mp (by omega)
    | some last =>
      have same := congrArg List.getLast? shares
      rw [List.getLast?_append, List.getLast?_append, isLast] at same
      cases isTyped : edited.current.getLast? with
      | none =>
        exact List.getLast?_eq_none_iff.mp isTyped
      | some char =>
        rw [isTyped] at same
        cases same
        exact absurd (behindLine last isLast)
          (wellFormed.current last (List.mem_of_getLast? isTyped))
  obtain ⟨lines, current⟩ := edited
  cases isEmpty
  rfl

end Edited.WellFormed

theorem Termios.edit_append (termios : Termios) (typed : List (BitVec 8))
    (char : BitVec 8) :
    termios.edit (typed ++ [char]) = match termios.translate char with
      | none => termios.edit typed
      | some translated =>
        termios.editChar (termios.edit typed) translated := by
  unfold Termios.edit
  cases isTranslated : termios.translate char <;> simp [isTranslated]

theorem Termios.store_stream (termios : Termios) (edited : Edited)
    (char : BitVec 8) :
    (termios.store edited char).lines ++ (termios.store edited char).current =
      edited.lines ++ edited.current ++ [char] := by
  unfold Termios.store
  split <;> simp

/-- The queue holds what the editor has, up to the edit that is due. -/
structure TtyEdited
    (termios : Termios) (system : TtySystem)
    (before : Edited) : Prop where
  wellFormed : before.WellFormed termios
  shares : system.taken ++ system.secQ.items = before.lines ++ before.current
  isEdit :
    termios.edit system.typed = termios.applyEdit before system.input.edit

/-- What the steps keep. -/
structure TtySound (termios : Termios) (system : TtySystem) : Prop where
  inRange : system.secQ.InRange
  edited : ∃ before, TtyEdited termios system before
  finished : system.taken <+: (termios.edit system.typed).lines
  taker : ∀ thread read, system.lastTaker = some thread →
      system.reads thread = some read → read.received <:+ system.taken
  active : ∀ thread read, system.reads thread = some read →
      read.received <:+: system.taken ∧ newline ∉ read.received
  returned : ∀ piece ∈ system.returned,
      piece <:+: system.taken ∧ newline ∉ piece.dropLast

namespace TtySound

variable {termios : Termios} {system : TtySystem}

theorem created (data : Nat → BitVec 8) :
    TtySound termios (.created data) := by
  have inRange := @TtyQueue.inRange_empty TTY_BUF_LEN (by decide) data
  have isEmpty := inRange.items_eq_nil_iff.mpr rfl
  exact ⟨inRange,
    ⟨{ lines := [], current := [] }, ⟨nofun, nofun⟩, isEmpty, rfl⟩,
    List.nil_prefix, nofun, nofun, nofun⟩

theorem settle (sound : TtySound termios system)
    {queue : TtyQueue} {after : Edited}
    (inRange : queue.InRange) (wellFormed : after.WellFormed termios)
    (shares : system.taken ++ queue.items = after.lines ++ after.current)
    (isEdit : termios.edit system.typed = after) :
    TtySound termios { system with secQ := queue, input := .idle } :=
  ⟨inRange, ⟨after, wellFormed, shares, isEdit⟩, sound.finished, sound.taker,
    sound.active, sound.returned⟩

variable {char : BitVec 8}

theorem action_edit (canonical : termios.Canonical)
    (plain :
      ∀ control ∈ [termios.vstop, termios.vstart, termios.vintr, termios.vquit],
        ¬ IsControl char control) :
    (termios.action char).edit = if IsControl char termios.verase then none
      else if char = backspace then some .erase
      else some (.store char) := by
  have notStop := plain termios.vstop (by simp)
  have notStart := plain termios.vstart (by simp)
  have notIntr := plain termios.vintr (by simp)
  have notQuit := plain termios.vquit (by simp)
  unfold Termios.action
  simp only [canonical.icanon, canonical.echo, canonical.echoe, notStop,
    notStart, notIntr, notQuit, true_and, false_or, or_self, and_false,
    and_true, if_false]
  split
  · rfl
  · split <;> rfl

theorem lines_editChar (edited : Edited) (char : BitVec 8) :
    edited.lines <+: (termios.editChar edited char).lines := by
  unfold Termios.editChar Termios.store
  split
  · exact List.prefix_refl _
  split
  · rw [List.append_assoc]
    exact List.prefix_append _ _
  · exact List.prefix_refl _

section

variable (sound : TtySound termios system)

include sound

theorem fetch (canonical : termios.Canonical) (idle : system.input = .idle)
    (plain : TypesPlainly termios system (.fetch char))
    (keeps : KeepsLines termios system (.fetch char)) :
    TtySound termios (system.fetch termios char) := by
  obtain ⟨before, wellFormed, shares, isEdit⟩ := sound.edited
  rw [idle] at isEdit
  have isEdit : termios.edit system.typed = before := isEdit
  have finished := sound.finished
  unfold TtySystem.fetch
  cases isTranslated : termios.translate char with
  | none =>
    have same : termios.edit (system.typed ++ [char]) = before := by
      rw [termios.edit_append, isTranslated]
      exact isEdit
    refine ⟨sound.inRange, ⟨before, wellFormed, shares, same⟩, ?_,
      sound.taker, sound.active, sound.returned⟩
    rw [same, ← isEdit]
    exact finished
  | some translated =>
    have typed : termios.edit (system.typed ++ [char]) =
          termios.editChar before translated := by
      rw [termios.edit_append, isTranslated, ← isEdit]
    have dueEdit : termios.editChar before translated =
          termios.applyEdit before (termios.action translated).edit := by
      rw [action_edit canonical (plain translated isTranslated)]
      unfold Termios.editChar
      by_cases isErase : IsControl translated termios.verase
      · rw [if_pos (.inr isErase), if_pos isErase]
        rw [isEdit] at finished
        exact wellFormed.erase_eq shares finished
          (keeps translated isTranslated isErase)
      · by_cases isBackspace : translated = backspace
        · rw [if_pos (.inl isBackspace), if_neg isErase, if_pos isBackspace]
          rfl
        · rw [if_neg (by simp [isErase, isBackspace]), if_neg isErase,
            if_neg isBackspace]
          rfl
    have phase :
        (if (termios.action translated).wakes then
            InputPhase.waking (termios.action translated).edit
          else .of (termios.action translated).edit).edit =
          (termios.action translated).edit := by
      split
      · rfl
      · cases (termios.action translated).edit <;> rfl
    refine ⟨sound.inRange,
      ⟨before, wellFormed, shares, (typed.trans dueEdit).trans ?_⟩, ?_,
      sound.taker, sound.active, sound.returned⟩
    · exact congrArg (termios.applyEdit before) phase.symm
    · rw [typed]
      rw [isEdit] at finished
      exact finished.trans (lines_editChar before translated)

theorem continueInput (plain : TypesPlainly termios system .input)
    (keeps : KeepsLines termios system .input) :
    TtySound termios system.continueInput := by
  obtain ⟨before, wellFormed, shares, isEdit⟩ := sound.edited
  have finished := sound.finished
  unfold TtySystem.continueInput
  split
  · exact sound
  next edit isWaking =>
    rw [isWaking] at isEdit
    refine ⟨sound.inRange, ⟨before, wellFormed, shares, isEdit.trans ?_⟩,
      finished, sound.taker, sound.active, sound.returned⟩
    cases edit <;> rfl
  next isErasing =>
    rw [isErasing] at isEdit
    by_cases isEmpty : ttyEmptyq system.secQ = true
    · have noItems := sound.inRange.items_eq_nil_iff.mpr (beq_iff_eq.mp isEmpty)
      rw [if_pos isEmpty]
      rw [isEdit] at finished
      have same : before.erase = before :=
        wellFormed.erase_eq shares finished (by simp [noItems])
      exact sound.settle sound.inRange wellFormed shares (isEdit.trans same)
    · rw [if_neg isEmpty]
      exact ⟨sound.inRange, ⟨before, wellFormed, shares, isEdit⟩, finished,
        sound.taker, sound.active, sound.returned⟩
  next isUnqueuing =>
    rw [isUnqueuing] at isEdit
    rw [isEdit] at finished
    cases removes : ttyUnq system.secQ with
    | none =>
      have noItems := sound.inRange.ttyUnq_eq_none_iff.mp removes
      have same : before.erase = before :=
        wellFormed.erase_eq shares finished (by simp [noItems])
      exact sound.settle sound.inRange wellFormed shares (isEdit.trans same)
    | some after =>
      have nonempty : system.secQ.items ≠ [] := fun isEmpty => by
        rw [sound.inRange.ttyUnq_eq_none_iff.mpr isEmpty] at removes
        cases removes
      obtain ⟨last, isLast⟩ :=
        Option.ne_none_iff_exists'.mp
          fun none => nonempty (List.getLast?_eq_none_iff.mp none)
      obtain ⟨notEnds, notFirst⟩ := keeps isUnqueuing last isLast
      obtain ⟨inRange, -, isItems⟩ := sound.inRange.ttyUnq_some removes notFirst
      refine sound.settle inRange wellFormed.erase ?_ isEdit
      rw [Option.getD_some, isItems]
      exact wellFormed.shares_erase shares isLast notEnds
  next data isStoring =>
    rw [isStoring] at isEdit
    obtain ⟨after, puts⟩ := Option.ne_none_iff_exists'.mp (plain data isStoring)
    obtain ⟨inRange, -, isItems⟩ := sound.inRange.ttyInq_some puts
    rw [puts]
    refine sound.settle inRange (wellFormed.store data) ?_ isEdit
    rw [Option.getD_some, termios.store_stream, isItems, ← shares,
      List.append_assoc]

theorem setRead {thread : Nat} {read : Option TtyRead}
    (isPiece :
      ∀ call, read = some call →
        call.received <:+: system.taken ∧ newline ∉ call.received)
    (isTaker :
      ∀ call, read = some call → system.lastTaker = some thread →
        call.received <:+ system.taken) :
    TtySound termios (system.setRead thread read) := by
  obtain ⟨before, wellFormed, shares, isEdit⟩ := sound.edited
  refine ⟨sound.inRange, ⟨before, wellFormed, shares, isEdit⟩, sound.finished,
    fun other call isLast isRead => ?_, fun other call isRead => ?_,
    sound.returned⟩
  · by_cases same : other = thread
    · subst same
      exact isTaker call ((if_pos rfl).symm.trans isRead) isLast
    · exact sound.taker other call isLast ((if_neg same).symm.trans isRead)
  · by_cases same : other = thread
    · subst same
      exact isPiece call ((if_pos rfl).symm.trans isRead)
    · exact sound.active other call ((if_neg same).symm.trans isRead)

theorem finishRead (thread : Nat) {piece : List (BitVec 8)}
    (isPiece : piece <:+: system.taken ∧ newline ∉ piece.dropLast) :
    TtySound termios (system.finishRead thread piece) := by
  have ended : TtySound termios (system.setRead thread none) :=
    sound.setRead nofun nofun
  obtain ⟨before, wellFormed, shares, isEdit⟩ := ended.edited
  refine ⟨ended.inRange, ⟨before, wellFormed, shares, isEdit⟩,
    ended.finished, ended.taker, ended.active, fun other member => ?_⟩
  rcases List.mem_append.mp member with member | member
  · exact sound.returned other member
  · rwa [List.mem_singleton.mp member]

theorem finished_take {rest : List (BitVec 8)}
    (isItems : system.secQ.items = char :: rest)
    (lineThere :
      ∃ last ∈ system.secQ.items ++ system.input.pending, termios.Ends last) :
    system.taken ++ [char] <+: (termios.edit system.typed).lines := by
  obtain ⟨before, wellFormed, shares, isEdit⟩ := sound.edited
  obtain ⟨last, member, ends⟩ := lineThere
  have finished := sound.finished
  -- the stream that the editor and the queue share, with the due character
  obtain ⟨after, isAfter, more⟩ : ∃ after : Edited, after.WellFormed termios ∧
        after.lines = (termios.edit system.typed).lines ∧
          system.taken ++ (system.secQ.items ++ system.input.pending) =
            after.lines ++ after.current := by
    unfold InputPhase.pending
    rw [isEdit]
    cases system.input.edit with
    | none =>
      exact ⟨before, wellFormed, rfl, by simpa using shares⟩
    | some edit =>
      cases edit with
      | erase =>
        exact ⟨before, wellFormed, rfl, by simpa using shares⟩
      | store data =>
        refine ⟨_, wellFormed.store data, rfl, ?_⟩
        rw [termios.store_stream, ← shares, List.append_assoc]
  obtain ⟨sameLines, sharesMore⟩ := more
  have unread := isAfter.length_lt sharesMore member ends
  rw [← sameLines]
  refine List.prefix_of_prefix_length_le ?_
    (List.prefix_append after.lines after.current) ?_
  · rw [← sharesMore, isItems]
    exact ⟨rest ++ system.input.pending, by simp⟩
  · rw [List.length_append, List.length_singleton]
    exact unread

end

theorem take (sound : TtySound termios system)
    {thread : Nat} {char : BitVec 8} {queue : TtyQueue}
    (takes : ttyDeq system.secQ = some (char, queue))
    (lineThere :
      ∃ last ∈ system.secQ.items ++ system.input.pending, termios.Ends last) :
    TtySound termios
      ({ system with
          secQ := queue
          taken := system.taken ++ [char]
          lastTaker := some thread }.setRead thread none) := by
  obtain ⟨inRange, -, isItems⟩ := sound.inRange.ttyDeq_some takes
  obtain ⟨before, wellFormed, shares, isEdit⟩ := sound.edited
  have longer {piece : List (BitVec 8)} (isPiece : piece <:+: system.taken) :
      piece <:+: system.taken ++ [char] :=
    isPiece.trans (List.prefix_append _ _).isInfix
  refine ⟨inRange, ⟨before, wellFormed, ?_, isEdit⟩,
    sound.finished_take isItems lineThere, fun other call isLast isRead => ?_,
    fun other call isRead => ?_, fun piece member => ?_⟩
  · show system.taken ++ [char] ++ queue.items = _
    rw [← shares, isItems, List.append_assoc]
    rfl
  · cases isLast
    cases (if_pos rfl).symm.trans isRead
  · by_cases same : other = thread
    · cases (if_pos same).symm.trans isRead
    · obtain ⟨isPiece, noNewline⟩ :=
        sound.active other call ((if_neg same).symm.trans isRead)
      exact ⟨longer isPiece, noNewline⟩
  · obtain ⟨isPiece, noNewline⟩ := sound.returned piece member
    exact ⟨longer isPiece, noNewline⟩

theorem countChar (sound : TtySound termios (system.setRead thread none))
    (canonical : termios.Canonical) {read : TtyRead} {earlier : List (BitVec 8)}
    (isTaken : system.taken = earlier ++ [char])
    (isPiece : read.received <:+: earlier) (isLast : read.received <:+ earlier)
    (noNewline : newline ∉ read.received) :
    TtySound termios (system.countChar termios thread read char) := by
  have again (next : Option TtyRead) :
      (system.setRead thread none).setRead thread next =
        system.setRead thread next := by
    unfold TtySystem.setRead
    congr 1
    funext other
    by_cases same : other = thread <;> simp [same]
  have counted : read.received ++ [char] <:+ system.taken := by
    obtain ⟨front, rfl⟩ := isLast
    exact ⟨front, by rw [isTaken, List.append_assoc]⟩
  unfold TtySystem.countChar TtySystem.finishRead
  split
  · have finished :=
      sound.finishRead thread
        (show read.received <:+: _ ∧ _ from
          ⟨isPiece.trans ⟨[], [char], by simp [TtySystem.setRead, isTaken]⟩,
            fun member => noNewline (List.dropLast_subset _ member)⟩)
    rw [TtySystem.finishRead, again] at finished
    exact finished
  split
  · have finished :=
      sound.finishRead thread
        (show read.received ++ [char] <:+: _ ∧ _ from
          ⟨counted.isInfix, by rwa [List.dropLast_concat]⟩)
    rw [TtySystem.finishRead, again] at finished
    exact finished
  next notNewline =>
    rw [← again]
    refine sound.setRead (fun call isCall => ?_) fun call isCall _ => ?_
    · cases isCall
      refine ⟨counted.isInfix, fun member => ?_⟩
      rcases List.mem_append.mp member with member | member
      · exact noNewline member
      · exact notNewline ⟨canonical.icanon, (List.mem_singleton.mp member).symm⟩
    · cases isCall
      exact counted

theorem continueRead
    (sound : TtySound termios system) (canonical : termios.Canonical)
    {thread : Nat} {read : TtyRead} {stale : BitVec 8}
    (inside : system.reads thread = some read)
    (keeps : KeepsLines termios system (.read thread stale)) :
    TtySound termios (system.continueRead termios thread read stale) := by
  obtain ⟨isPiece, noNewline⟩ := sound.active thread read inside
  have isTaker := sound.taker thread read
  have goesOn (phase : ReadPhase) :
      TtySound termios
        (system.setRead thread (some { read with phase := phase })) := by
    refine sound.setRead (fun call isCall => ?_) fun call isCall isLast => ?_
    · cases isCall
      exact ⟨isPiece, noNewline⟩
    · cases isCall
      exact isTaker isLast inside
  unfold TtySystem.continueRead
  split
  · split
    · exact goesOn _
    · exact sound.finishRead thread
        ⟨isPiece, fun member => noNewline (List.dropLast_subset _ member)⟩
  · have asleep := goesOn .taking
    obtain ⟨before, wellFormed, shares, isEdit⟩ := asleep.edited
    exact ⟨asleep.inRange, ⟨before, wellFormed, shares, isEdit⟩,
      asleep.finished, asleep.taker, asleep.active, asleep.returned⟩
  next isTaking =>
    obtain ⟨nonempty, lineThere, isAlone⟩ := keeps read inside isTaking
    obtain ⟨⟨char, queue⟩, takes⟩ :=
      Option.ne_none_iff_exists'.mp
        (mt sound.inRange.ttyDeq_eq_none_iff.mp nonempty)
    have isLast : read.received <:+ system.taken := by
      rcases isAlone with isNew | isLast
      · rw [isNew]
        exact List.nil_suffix
      · exact isTaker isLast inside
    rw [takes, Option.getD_some]
    exact (sound.take takes lineThere).countChar canonical rfl isPiece isLast
      noNewline

theorem step (sound : TtySound termios system) (canonical : termios.Canonical)
    {label : TtyLabel} {next : TtySystem}
    (plain : TypesPlainly termios system label)
    (keeps : KeepsLines termios system label)
    (stepped : TtyStep termios system label next) : TtySound termios next := by
  cases stepped with
  | fetch idle =>
    exact sound.fetch canonical idle plain keeps
  | input =>
    exact sound.continueInput plain keeps
  | call outside =>
    refine sound.setRead (fun call isCall => ?_) fun call isCall _ => ?_
    · cases isCall
      exact ⟨List.nil_infix, List.not_mem_nil⟩
    · cases isCall
      exact List.nil_suffix
  | read inside runs =>
    exact sound.continueRead canonical inside keeps

end TtySound

/-- A call that asks for a number of characters. -/
def newRead (len : Nat) : TtyRead where
  len := len
  received := []
  phase := .testing

/-- A thread in a call has found characters. -/
def TtySystem.reading (system : TtySystem) : TtySystem :=
  (system.setRead 0 (some (newRead 1))).continueRead createdTermios 0
    (newRead 1) 0

end Idylla.Tty
