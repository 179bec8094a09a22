namespace Idylla.Lib

/-!
# Doubly linked lists with heads

Every node has a link to the next and to the previous node.  A head and the
members of its list form a ring, and a member is unlinked from whatever ring it
is in before it gets into another one.  `Holds` says which members the lists of
all heads have; each operation has one lemma about it.
-/

/-- A head of a list, or what may be a member of one. -/
inductive Node (Head Member : Type) where
  | head (head : Head)
  | member (member : Member)
  deriving Repr, DecidableEq

/-- The links of all nodes. -/
structure Links (Head Member : Type) where
  next : Node Head Member → Node Head Member
  prev : Node Head Member → Node Head Member

namespace Links

variable {Head Member : Type} [DecidableEq Head] [DecidableEq Member]

/-- No list has a member. -/
def empty : Links Head Member where
  next := id
  prev := id

/-- One link to a next node written. -/
def setNext (links : Links Head Member)
    (node target : Node Head Member) : Links Head Member :=
  { links with
    next := fun other => if other = node then target else links.next other }

/-- One link to a previous node written. -/
def setPrev (links : Links Head Member)
    (node target : Node Head Member) : Links Head Member :=
  { links with
    prev := fun other => if other = node then target else links.prev other }

/-- The neighbours of a node linked to each other. -/
def unlink (links : Links Head Member)
    (node : Node Head Member) : Links Head Member :=
  let links := links.setNext (links.prev node) (links.next node)
  links.setPrev (links.next node) (links.prev node)

/-- A node removed from its list, alone from then on. -/
def remove (links : Links Head Member)
    (node : Node Head Member) : Links Head Member :=
  ((links.unlink node).setPrev node node).setNext node node

/-- A node linked behind a place. -/
def insert (links : Links Head Member)
    (place node : Node Head Member) : Links Head Member :=
  let links := links.setPrev node place
  let links := links.setNext node (links.next place)
  let links := links.setPrev (links.next place) node
  links.setNext place node

/-- A node removed from its list and linked behind a place. -/
def add (links : Links Head Member)
    (place node : Node Head Member) : Links Head Member :=
  (links.unlink node).insert place node

/-- The test for an empty list. -/
def isEmpty (links : Links Head Member) (head : Head) : Bool :=
  links.prev (.head head) = .head head ∧ links.next (.head head) = .head head

variable {node other : Node Head Member}

theorem next_remove (links : Links Head Member) :
    (links.remove node).next other = if other = node then node
      else if other = links.prev node then links.next node
      else links.next other := by
  simp [remove, unlink, setNext, setPrev]

theorem next_add_self (links : Links Head Member) :
    (links.add node node).next other = if other = node then node
      else if other = links.prev node then links.next node
      else links.next other := by
  by_cases same : other = node <;>
    simp [add, insert, unlink, setNext, setPrev, same]

theorem prev_add_self (links : Links Head Member) :
    (links.add node node).prev other = if other = links.next node then node
      else if other = node then node
      else links.prev other := by
  by_cases isNext : other = links.next node <;>
    simp [add, insert, unlink, setNext, setPrev, isNext]

/-- The links to previous nodes are those to next nodes turned around. -/
structure Matched (links : Links Head Member) : Prop where
  prev_next : ∀ node, links.prev (links.next node) = node
  next_prev : ∀ node, links.next (links.prev node) = node

/-- The members between one node and another. -/
def Path (next : Node Head Member → Node Head Member) :
    Node Head Member → List Member → Node Head Member → Prop
  | start, [], stop => next start = stop
  | start, member :: rest, stop =>
    next start = .member member ∧ Path next (.member member) rest stop

/-- The lists of all heads: rings that share no members. -/
structure Holds
    (links : Links Head Member)
    (lists : Head → List Member) : Prop where
  matched : links.Matched
  ring : ∀ head, Path links.next (.head head) (lists head) (.head head)
  nodup : ∀ head, (lists head).Nodup
  apart : ∀ head other member, member ∈ lists head → member ∈ lists other →
      head = other

namespace Matched

variable {links : Links Head Member} {node place other : Node Head Member}

omit [DecidableEq Head] [DecidableEq Member] in
theorem next_eq_iff (matched : links.Matched) :
    links.next other = node ↔ other = links.prev node := by
  constructor
  · intro isNext
    rw [← isNext, matched.prev_next]
  · intro isPrev
    rw [isPrev, matched.next_prev]

theorem next_remove (matched : links.Matched) :
    (links.remove node).next other = if other = node then node
      else if links.next other = node then links.next node
      else links.next other := by
  rw [links.next_remove]
  simp only [matched.next_eq_iff]

theorem prev_remove (matched : links.Matched) :
    (links.remove node).prev other = if other = node then node
      else if links.prev other = node then links.prev node
      else links.prev other := by
  by_cases same : other = node
  · simp [remove, unlink, setNext, setPrev, same]
  · have isNext_iff : links.prev other = node ↔ other = links.next node := by
      constructor
      · intro isPrev
        rw [← isPrev, matched.next_prev]
      · intro isNext
        rw [isNext, matched.prev_next]
    simp only [remove, unlink, setNext, setPrev, ite_self, same, isNext_iff,
      ↓reduceIte]

theorem remove (matched : links.Matched) (node : Node Head Member) :
    (links.remove node).Matched := by
  have prevNext := matched.prev_next
  have nextPrev := matched.next_prev
  constructor
  · intro other
    rw [matched.prev_remove, matched.next_remove]
    grind
  · intro other
    rw [matched.next_remove, matched.prev_remove]
    grind

theorem next_insert :
    (links.insert place node).next other = if other = place then node
      else if other = node then links.next place
      else links.next other := by
  simp [insert, setNext, setPrev]

theorem prev_insert (differs : place ≠ node) :
    (links.insert place node).prev other = if other = links.next place then node
      else if other = node then place
      else links.prev other := by
  simp [insert, setNext, setPrev, differs]

theorem insert (matched : links.Matched) (differs : place ≠ node)
    (alone : links.next node = node) : (links.insert place node).Matched := by
  have prevNext := matched.prev_next
  have nextPrev := matched.next_prev
  constructor
  · intro other
    rw [prev_insert differs, next_insert]
    grind
  · intro other
    rw [next_insert, prev_insert differs]
    grind

end Matched

theorem add_eq (links : Links Head Member) {place node : Node Head Member}
    (differs : place ≠ node) :
    links.add place node = (links.remove node).insert place node := by
  simp only [add, insert, remove, setNext, setPrev, differs, ↓reduceIte,
    Links.mk.injEq]
  constructor
  · grind
  · grind

section Paths

variable {links : Links Head Member}
  {next other : Node Head Member → Node Head Member}
  {start stop place : Node Head Member} {members : List Member}
  {member : Member} {head : Head}

omit [DecidableEq Head] [DecidableEq Member] in
/-- A path is one of the links of its nodes. -/
theorem Path.congr (path : Path next start members stop)
    (atStart : other start = next start)
    (inside :
      ∀ member ∈ members, other (.member member) = next (.member member)) :
    Path other start members stop := by
  induction members generalizing start with
  | nil =>
    exact atStart.trans path
  | cons first rest ih =>
    refine ⟨atStart.trans path.1, ?_⟩
    exact ih path.2 (inside first List.mem_cons_self)
      fun member isMember => inside member (List.mem_cons_of_mem first isMember)

omit [DecidableEq Head] [DecidableEq Member] in
theorem Path.next_mem (path : Path next start members stop)
    {node : Node Head Member}
    (isNode : node = start ∨ ∃ member ∈ members, node = .member member) :
    next node = stop ∨ ∃ member ∈ members, next node = .member member := by
  induction members generalizing start node with
  | nil =>
    rcases isNode with rfl | ⟨member, isMember, -⟩
    · exact .inl path
    · cases isMember
  | cons first rest ih =>
    have later :
        node = .member first ∨ (∃ member ∈ rest, node = .member member) →
        next node = stop ∨
          ∃ member ∈ first :: rest, next node = .member member := by
      intro isLater
      rcases ih path.2 isLater with
        isStop | ⟨member, isMember, isNext⟩
      · exact .inl isStop
      · exact .inr ⟨member, List.mem_cons_of_mem first isMember, isNext⟩
    rcases isNode with rfl | ⟨member, isMember, rfl⟩
    · exact .inr ⟨first, List.mem_cons_self, path.1⟩
    · rcases List.mem_cons.mp isMember with rfl | inRest
      · exact later (.inl rfl)
      · exact later (.inr ⟨member, inRest, rfl⟩)

section

variable (path : Path links.next start members stop) (matched : links.Matched)

include path matched

omit [DecidableEq Head] [DecidableEq Member] in
theorem Path.prev_stop :
    links.prev stop = start ∨
      ∃ member ∈ members, links.prev stop = .member member := by
  induction members generalizing start with
  | nil =>
    exact .inl (matched.next_eq_iff.mp path).symm
  | cons first rest ih =>
    refine .inr ?_
    rcases ih path.2 with
      isFirst | ⟨member, isMember, isPrev⟩
    · exact ⟨first, List.mem_cons_self, isFirst⟩
    · exact ⟨member, List.mem_cons_of_mem first isMember, isPrev⟩

theorem Path.remove_of_not_mem (notStart : start ≠ .member member)
    (notStop : stop ≠ .member member) (notMember : member ∉ members) :
    Path (links.remove (.member member)).next start members stop := by
  have kept {node : Node Head Member}
      (isNode : node = start ∨ ∃ other ∈ members, node = .member other)
      (differs : node ≠ .member member) :
      (links.remove (.member member)).next node = links.next node := by
    have notNext : links.next node ≠ .member member := by
      rcases path.next_mem isNode with isStop | ⟨other, isOther, isNext⟩
      · exact fun isNext => notStop (isStop.symm.trans isNext)
      · rintro isThat
        cases isNext.symm.trans isThat
        exact notMember isOther
    rw [matched.next_remove, if_neg differs, if_neg notNext]
  refine path.congr (kept (.inl rfl) notStart) fun other isOther => ?_
  refine kept (.inr ⟨other, isOther, rfl⟩) ?_
  rintro ⟨⟩
  exact notMember isOther

theorem Path.remove (notStart : start ≠ .member member)
    (notStop : stop ≠ .member member) (nodup : members.Nodup) :
    Path (links.remove (.member member)).next start
      (members.filter fun other => other ≠ member) stop := by
  induction members generalizing start with
  | nil =>
    exact path.remove_of_not_mem matched notStart notStop List.not_mem_nil
  | cons first rest ih =>
    obtain ⟨notInRest, restNodup⟩ := List.nodup_cons.mp nodup
    obtain ⟨isFirst, later⟩ := path
    by_cases isMember : first = member
    · subst isMember
      have unfiltered :
          ((first :: rest).filter fun other => other ≠ first) = rest := by
        rw [List.filter_cons_of_neg (by simp)]
        refine List.filter_eq_self.mpr fun other isOther => ?_
        have differs : other ≠ first := by
          rintro rfl
          exact notInRest isOther
        simpa using differs
      have bridges : (links.remove (.member first)).next start =
            links.next (.member first) := by
        rw [matched.next_remove, if_neg notStart, if_pos isFirst]
      rw [unfiltered]
      cases rest with
      | nil =>
        exact bridges.trans later
      | cons second others =>
        refine ⟨bridges.trans later.1, ?_⟩
        refine later.2.remove_of_not_mem matched ?_ notStop
          fun isOther => notInRest (List.mem_cons_of_mem second isOther)
        rintro ⟨⟩
        exact notInRest List.mem_cons_self
    · have keptFirst :
          (links.remove (.member member)).next start = .member first := by
        have notNext : links.next start ≠ .member member := by
          rw [isFirst]
          rintro ⟨⟩
          exact isMember rfl
        rw [matched.next_remove, if_neg notStart, if_neg notNext, isFirst]
      rw [List.filter_cons_of_pos (by simpa using isMember)]
      refine ⟨keptFirst, ih later ?_ restNodup⟩
      rintro ⟨⟩
      exact isMember rfl

end

theorem Path.insertLast (path : Path links.next start members (.head head))
    (matched : links.Matched) (isLast : links.next place = .head head)
    (notStart : start ≠ .member member) (notMember : member ∉ members) :
    Path (links.insert place (.member member)).next start
      (members ++ [member]) (.head head) := by
  induction members generalizing start with
  | nil =>
    have isPlace : start = place :=
      (matched.next_eq_iff.mp path).trans (matched.next_eq_iff.mp isLast).symm
    subst isPlace
    refine ⟨?_, ?_⟩
    · rw [Matched.next_insert, if_pos rfl]
    · show (links.insert start (.member member)).next (.member member) = _
      rw [Matched.next_insert, if_neg (Ne.symm notStart), if_pos rfl, isLast]
  | cons first rest ih =>
    obtain ⟨isFirst, later⟩ := path
    have notPlace : start ≠ place := by
      rintro rfl
      rw [isLast] at isFirst
      cases isFirst
    refine ⟨?_, ih later ?_ ?_⟩
    · rw [Matched.next_insert, if_neg notPlace, if_neg notStart, isFirst]
    · rintro ⟨⟩
      exact notMember List.mem_cons_self
    · exact fun isOther => notMember (List.mem_cons_of_mem first isOther)

theorem Path.insertFirst (path : Path links.next (.head head) members stop)
    (notMember : member ∉ members) :
    Path (links.insert (.head head) (.member member)).next (.head head)
      (member :: members) stop := by
  refine ⟨?_, ?_⟩
  · rw [Matched.next_insert, if_pos rfl]
  have isNext :
      (links.insert (.head head) (.member member)).next (.member member) =
        links.next (.head head) := by
    rw [Matched.next_insert, if_neg nofun, if_pos rfl]
  have kept {other : Member}
      (isOther : other ∈ members) :
      (links.insert (.head head) (.member member)).next (.member other) =
        links.next (.member other) := by
    have differs : (.member other : Node Head Member) ≠ .member member := by
      rintro ⟨⟩
      exact notMember isOther
    rw [Matched.next_insert, if_neg nofun, if_neg differs]
  cases members with
  | nil =>
    exact isNext.trans path
  | cons first rest =>
    refine ⟨isNext.trans path.1, path.2.congr (kept List.mem_cons_self) ?_⟩
    exact fun other isOther => kept (List.mem_cons_of_mem first isOther)

theorem Path.insert_of_not_node (path : Path links.next start members stop)
    (notPlace : start ≠ place) (notStart : start ≠ .member member)
    (noPlace : ∀ other ∈ members, .member other ≠ place)
    (notMember : member ∉ members) :
    Path (links.insert place (.member member)).next start members stop := by
  refine path.congr ?_ fun other isOther => ?_
  · rw [Matched.next_insert, if_neg notPlace, if_neg notStart]
  · have differs : (.member other : Node Head Member) ≠ .member member := by
      rintro ⟨⟩
      exact notMember isOther
    rw [Matched.next_insert, if_neg (noPlace other isOther), if_neg differs]

omit [DecidableEq Head] [DecidableEq Member] in
/-- The links give the members between a node and a head. -/
theorem Path.unique {others : List Member}
    (path : Path next start members (.head head))
    (another : Path next start others (.head head)) : members = others := by
  induction members generalizing start others with
  | nil =>
    cases others with
    | nil =>
      rfl
    | cons first rest =>
      cases path.symm.trans another.1
  | cons first rest ih =>
    cases others with
    | nil =>
      cases path.1.symm.trans another
    | cons second later =>
      have sameFirst : first = second := by
        cases path.1.symm.trans another.1
        rfl
      subst sameFirst
      rw [ih path.2 another.2]

omit [DecidableEq Head] [DecidableEq Member] in
theorem Path.next_ne
    (path : Path next start members (.head head)) (nodup : members.Nodup)
    (isMember : member ∈ members) : next (.member member) ≠ .member member := by
  induction members generalizing start with
  | nil =>
    cases isMember
  | cons first rest ih =>
    obtain ⟨notInRest, restNodup⟩ := List.nodup_cons.mp nodup
    rcases List.mem_cons.mp isMember with rfl | inRest
    · rcases path.2.next_mem (.inl rfl) with isHead | ⟨other, isOther, isNext⟩
      · rw [isHead]
        nofun
      · rw [isNext]
        rintro ⟨⟩
        exact notInRest isOther
    · exact ih path.2 restNodup inRest

end Paths

/-- The lists without a member. -/
def without (lists : Head → List Member)
    (member : Member) : Head → List Member :=
  fun head => (lists head).filter fun other => other ≠ member

/-- The lists with that of one head replaced. -/
def withList (lists : Head → List Member) (head : Head)
    (members : List Member) : Head → List Member :=
  fun other => if other = head then members else lists other

omit [DecidableEq Head] in
@[simp, grind =]
theorem mem_without
    {lists : Head → List Member} {head : Head} {member other : Member} :
    other ∈ without lists member head ↔
      other ∈ lists head ∧ other ≠ member := by
  simp [without]

namespace Holds

variable {links : Links Head Member} {lists others : Head → List Member}
  {head : Head} {member : Member}

omit [DecidableEq Head] [DecidableEq Member] in
theorem empty : (empty : Links Head Member).Holds fun _ => [] :=
  ⟨⟨fun _ => rfl, fun _ => rfl⟩, fun _ => rfl, fun _ => List.nodup_nil, nofun⟩

omit [DecidableEq Head] [DecidableEq Member] in
theorem unique (holds : links.Holds lists) (another : links.Holds others) :
    lists = others :=
  funext fun head => (holds.ring head).unique (another.ring head)

omit [DecidableEq Head] [DecidableEq Member] in
theorem next_ne (holds : links.Holds lists) (isMember : member ∈ lists head) :
    links.next (.member member) ≠ .member member :=
  (holds.ring head).next_ne (holds.nodup head) isMember

theorem isEmpty_iff (holds : links.Holds lists) :
    links.isEmpty head = true ↔ lists head = [] := by
  have ring := holds.ring head
  unfold isEmpty
  rw [decide_eq_true_iff]
  constructor
  · rintro ⟨-, isAlone⟩
    cases members : lists head with
    | nil =>
      rfl
    | cons first rest =>
      rw [members] at ring
      cases isAlone.symm.trans ring.1
  · intro members
    rw [members] at ring
    exact ⟨(holds.matched.next_eq_iff.mp ring).symm, ring⟩

omit [DecidableEq Head] [DecidableEq Member] in
theorem next_head (holds : links.Holds lists) {rest : List Member}
    (isFirst : lists head = member :: rest) :
    links.next (.head head) = .member member := by
  have ring := holds.ring head
  rw [isFirst] at ring
  exact ring.1

theorem remove (holds : links.Holds lists) (member : Member) :
    (links.remove (.member member)).Holds (without lists member) := by
  obtain ⟨matched, ring, nodup, apart⟩ := holds
  refine ⟨matched.remove _, fun head => ?_, fun head => ?_, ?_⟩
  · exact (ring head).remove matched nofun nofun (nodup head)
  · exact (nodup head).filter _
  · intro head other kept inHead inOther
    exact apart head other kept (mem_without.mp inHead).1
      (mem_without.mp inOther).1

theorem next_removed (holds : links.Holds lists) :
    (links.remove (.member member)).next (.member member) = .member member := by
  rw [holds.matched.next_remove, if_pos rfl]

theorem insert (holds : links.Holds lists)
    {place : Node Head Member} {members : List Member}
    (differs : place ≠ .member member)
    (alone : links.next (.member member) = .member member)
    (isPlace : place = .head head ∨ ∃ other ∈ lists head, place = .member other)
    (ring :
      Path (links.insert place (.member member)).next (.head head) members
        (.head head)) (nodup : members.Nodup)
    (isMember :
      ∀ other, other ∈ members ↔ other = member ∨ other ∈ lists head) :
    (links.insert place (.member member)).Holds
      (withList lists head members) := by
  have notListed (other : Head) : member ∉ lists other :=
    fun isListed => holds.next_ne isListed alone
  refine ⟨holds.matched.insert differs alone, fun other => ?_,
    fun other => ?_, fun first second kept inFirst inSecond => ?_⟩
  · by_cases same : other = head
    · subst same
      simpa [withList] using ring
    · have notPlace : Node.head other ≠ place := by
        rcases isPlace with rfl | ⟨inside, -, rfl⟩
        · rintro ⟨⟩
          exact same rfl
        · nofun
      have noPlace (inside : Member) (isInside : inside ∈ lists other) :
          Node.member inside ≠ place := by
        rcases isPlace with rfl | ⟨placed, isPlaced, rfl⟩
        · nofun
        · rintro ⟨⟩
          exact same (holds.apart other head inside isInside isPlaced)
      simpa [withList, same] using
        (holds.ring other).insert_of_not_node notPlace nofun noPlace
          (notListed other)
  · by_cases same : other = head
    · simpa [withList, same] using nodup
    · simpa [withList, same] using holds.nodup other
  · have apart := holds.apart first second kept
    grind [withList]

theorem addFront (holds : links.Holds lists) (head : Head) (member : Member) :
    (links.add (.head head) (.member member)).Holds
      (withList (without lists member) head
        (member :: without lists member head)) := by
  have differs : Node.head head ≠ Node.member member := nofun
  rw [add_eq links differs]
  have removed := holds.remove member
  have notMember : member ∉ without lists member head := by simp
  refine removed.insert differs holds.next_removed (.inl rfl) ?_ ?_ ?_
  · exact (removed.ring head).insertFirst notMember
  · exact List.nodup_cons.mpr ⟨notMember, removed.nodup head⟩
  · exact fun other => List.mem_cons

theorem addBack (holds : links.Holds lists)
    (notLast : links.prev (.head head) ≠ .member member) :
    (links.add (links.prev (.head head)) (.member member)).Holds
      (withList (without lists member) head
        (without lists member head ++ [member])) := by
  rw [add_eq links notLast]
  have removed := holds.remove member
  have notMember : member ∉ without lists member head := by simp
  have samePrev : (links.remove (.member member)).prev (.head head) =
        links.prev (.head head) := by
    rw [holds.matched.prev_remove, if_neg nofun, if_neg notLast]
  have isPlace := (removed.ring head).prev_stop removed.matched
  rw [samePrev] at isPlace
  have isLast : (links.remove (.member member)).next (links.prev (.head head)) =
        .head head := by
    rw [← samePrev, removed.matched.next_prev]
  refine removed.insert notLast holds.next_removed isPlace ?_ ?_ ?_
  · exact (removed.ring head).insertLast removed.matched isLast nofun notMember
  · refine List.nodup_append.mpr ⟨removed.nodup head, by simp, ?_⟩
    rintro other isOther _ (_ | ⟨_, ⟨⟩⟩) rfl
    exact notMember isOther
  · intro other
    rw [List.mem_append, List.mem_singleton, or_comm]

end Holds

end Links

end Idylla.Lib
