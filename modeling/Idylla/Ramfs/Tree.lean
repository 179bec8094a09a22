import Idylla.Ramfs.Volume

namespace Idylla.Ramfs

/-!
# The tree of a volume

What the slots of the inode table are, less what is in the files: which inode a
number stands for, which one a name has been given to and which ones are gone.
A file is in one slot and has at most one name, and entries refer to slots.
All that the calls do to the tree is to add a file or a directory, to bind a
name and to clear the slot of a file that has no name.
-/

/-- What is in a slot: a directory with its entries, or a certain file. -/
inductive SlotShape where
  | directory (inode : RamfsInode)
  | file (id : Nat)

/-- The slots by number, with the names and ends of the files. -/
structure RamfsTree where
  inodes : Nat
  slots : Nat → Option SlotShape
  ids : Nat
  names : Nat → List Char → Option Nat
  freed : List Nat

/-- What is in a slot. -/
def RamfsSlot.shape : RamfsSlot → SlotShape
  | .directory inode => .directory inode
  | .file id _ => .file id

/-- The tree of a volume. -/
def RamfsVolume.tree (volume : RamfsVolume) : RamfsTree where
  inodes := volume.inodes
  slots := fun num => (volume.inodeTable num).map RamfsSlot.shape
  ids := volume.ids
  names := volume.names
  freed := volume.freed

namespace RamfsTree

variable (tree : RamfsTree)

/-- A file has a name. -/
def Named (id : Nat) : Prop :=
  ∃ dir name, tree.names dir name = some id

/-- A slot taken. -/
def addSlot (num : Nat) (slot : SlotShape) : RamfsTree :=
  { tree with
    inodes := max tree.inodes num
    slots := fun other =>
      if other = num then some slot else tree.slots other }

/-- A new file in a slot. -/
def addFile (num : Nat) : RamfsTree :=
  { tree.addSlot num (.file tree.ids) with ids := tree.ids + 1 }

/-- A directory after a change of one name, which is then that of a file. -/
def bindName (dir : Nat) (after : RamfsInode) (name : List Char)
    (id : Option Nat) : RamfsTree :=
  { tree with
    slots := fun other =>
      if other = dir then some (.directory after) else tree.slots other
    names := fun other also =>
      if other = dir ∧ also = name then id else tree.names other also }

/-- The slot of a file cleared. -/
def free (num id : Nat) : RamfsTree :=
  { tree with
    slots := fun other => if other = num then none else tree.slots other
    freed := tree.freed ++ [id] }

/--
What a name can come to stand for: nothing, a directory or a file that has no
other name.
-/
inductive Target : Option Nat → Option Nat → Prop where
  | nothing : Target none none
  | directory {num : Nat} {inode : RamfsInode}
      (isSlot : tree.slots num = some (.directory inode)) :
      Target (some num) none
  | file {num id : Nat} (isSlot : tree.slots num = some (.file id))
      (unnamed : ¬ tree.Named id) :
      Target (some num) (some id)

end RamfsTree

/-- What the calls keep in the tree. -/
structure TreeSound (tree : RamfsTree) : Prop where
  numbers :
    ∀ {num slot}, tree.slots num = some slot → 0 < num ∧ num ≤ tree.inodes
  directories :
    ∀ {dir inode}, tree.slots dir = some (.directory inode) → inode.Distinct
  entries : ∀ {dir parent name num}, tree.slots dir = some (.directory parent) →
      parent.lookup name = some num →
      (∃ inode, tree.slots num = some (.directory inode)) ∨
        ∃ id, tree.slots num = some (.file id) ∧ tree.names dir name = some id
  names : ∀ {dir name id}, tree.names dir name = some id →
      ∃ parent num, tree.slots dir = some (.directory parent) ∧
        parent.lookup name = some num ∧ tree.slots num = some (.file id)
  nameOnce : ∀ {dir name other also id}, tree.names dir name = some id →
      tree.names other also = some id →
      other = dir ∧ also = name
  slotOnce : ∀ {num other id}, tree.slots num = some (.file id) →
      tree.slots other = some (.file id) →
      other = num
  born : ∀ id, id < tree.ids ↔
      id ∈ tree.freed ∨ ∃ num, tree.slots num = some (.file id)
  freedOnce : tree.freed.Nodup
  gone : ∀ {id num}, id ∈ tree.freed → tree.slots num ≠ some (.file id)

namespace TreeSound

variable {tree : RamfsTree} {dir num id : Nat} {parent after : RamfsInode}
  {name : List Char}

theorem lt_ids (sound : TreeSound tree)
    (isSlot : tree.slots num = some (.file id)) : id < tree.ids :=
  (sound.born id).mpr (.inr ⟨num, isSlot⟩)

theorem lt_ids_of_mem (sound : TreeSound tree) (isFreed : id ∈ tree.freed) :
    id < tree.ids :=
  (sound.born id).mpr (.inl isFreed)

variable {other : Nat}

theorem slots_addSlot (isFree : tree.slots num = none)
    {slot added : SlotShape} :
    (tree.addSlot num added).slots other = some slot ↔
      tree.slots other = some slot ∨ other = num ∧ slot = added := by
  show (if other = num then some added else tree.slots other) = some slot ↔ _
  split
  next same =>
    rw [same, isFree]
    simp [eq_comm]
  next differs => simp [differs]

theorem numbers_addSlot (sound : TreeSound tree) (positive : 0 < num)
    (isFree : tree.slots num = none) {slot added : SlotShape}
    (isSlot : (tree.addSlot num added).slots other = some slot) :
    0 < other ∧ other ≤ (tree.addSlot num added).inodes := by
  have inodes : (tree.addSlot num added).inodes = max tree.inodes num := rfl
  rcases (slots_addSlot isFree).mp isSlot with isSlot | ⟨rfl, -⟩
  · have bounds := sound.numbers isSlot
    omega
  · omega

theorem addFile (sound : TreeSound tree) (positive : 0 < num)
    (isFree : tree.slots num = none) : TreeSound (tree.addFile num) := by
  have keeps {other : Nat} {slot : SlotShape}
      (isSlot : tree.slots other = some slot) :
      (tree.addFile num).slots other = some slot :=
    (slots_addSlot isFree).mpr (.inl isSlot)
  have isDirectory {other : Nat} {inode : RamfsInode}
      (isSlot : (tree.addFile num).slots other = some (.directory inode)) :
      tree.slots other = some (.directory inode) := by
    rcases (slots_addSlot isFree).mp isSlot with isSlot | ⟨-, isNew⟩
    · exact isSlot
    · cases isNew
  have isFile {other file : Nat}
      (isSlot : (tree.addFile num).slots other = some (.file file)) :
      tree.slots other = some (.file file) ∨ other = num ∧ file = tree.ids := by
    rcases (slots_addSlot isFree).mp isSlot with isSlot | ⟨same, isNew⟩
    · exact .inl isSlot
    · exact .inr ⟨same, SlotShape.file.inj isNew⟩
  refine ⟨sound.numbers_addSlot positive isFree, fun isSlot => ?_,
    fun isSlot isFound => ?_, fun isName => ?_, sound.nameOnce,
    fun isFirst isSecond => ?_, fun file => ?_, sound.freedOnce,
    fun isFreed isSlot => ?_⟩
  · exact sound.directories (isDirectory isSlot)
  · rcases sound.entries (isDirectory isSlot) isFound with
      ⟨inode, isOther⟩ | ⟨file, isOther, isName⟩
    · exact .inl ⟨inode, keeps isOther⟩
    · exact .inr ⟨file, keeps isOther, isName⟩
  · obtain ⟨parent, number, isParent, isFound, isSlot⟩ := sound.names isName
    exact ⟨parent, number, keeps isParent, isFound, keeps isSlot⟩
  · rcases isFile isFirst with isFirst | ⟨sameFirst, isNew⟩
    · rcases isFile isSecond with isSecond | ⟨-, isNew⟩
      · exact sound.slotOnce isFirst isSecond
      · exact absurd isNew (Nat.ne_of_lt (sound.lt_ids isFirst))
    · rcases isFile isSecond with isSecond | ⟨sameSecond, -⟩
      · exact absurd isNew (Nat.ne_of_lt (sound.lt_ids isSecond))
      · exact sameSecond.trans sameFirst.symm
  · show file < tree.ids + 1 ↔ file ∈ tree.freed ∨ _
    rw [Nat.lt_succ_iff_lt_or_eq, sound.born file, or_assoc]
    refine or_congr_right ⟨?_, ?_⟩
    · rintro (⟨number, isSlot⟩ | rfl)
      · exact ⟨number, keeps isSlot⟩
      · exact ⟨num, (slots_addSlot isFree).mpr (.inr ⟨rfl, rfl⟩)⟩
    · rintro ⟨number, isSlot⟩
      rcases isFile isSlot with isSlot | ⟨-, isNew⟩
      · exact .inl ⟨number, isSlot⟩
      · exact .inr isNew
  · rcases isFile isSlot with isSlot | ⟨-, isNew⟩
    · exact sound.gone isFreed isSlot
    · exact absurd isNew (Nat.ne_of_lt (sound.lt_ids_of_mem isFreed))

theorem addDirectory (sound : TreeSound tree) (positive : 0 < num)
    (isFree : tree.slots num = none) {made : RamfsInode}
    (distinct : made.Distinct)
    (lookups :
      ∀ asked other, made.lookup asked = some other →
        other = num ∨ ∃ inode, tree.slots other = some (.directory inode)) :
    TreeSound (tree.addSlot num (.directory made)) := by
  have keeps {other : Nat} {slot : SlotShape}
      (isSlot : tree.slots other = some slot) :
      (tree.addSlot num (.directory made)).slots other = some slot :=
    (slots_addSlot isFree).mpr (.inl isSlot)
  have isNew :
      (tree.addSlot num (.directory made)).slots num = some (.directory made) :=
    (slots_addSlot isFree).mpr (.inr ⟨rfl, rfl⟩)
  have isFile {other file : Nat} :
      (tree.addSlot num (.directory made)).slots other = some (.file file) ↔
        tree.slots other = some (.file file) := by
    rw [slots_addSlot isFree]
    simp
  refine ⟨sound.numbers_addSlot positive isFree, fun isSlot => ?_,
    fun isSlot isFound => ?_, fun isName => ?_, sound.nameOnce,
    fun isFirst isSecond => ?_, fun file => ?_, sound.freedOnce,
    fun isFreed isSlot => ?_⟩
  · rcases (slots_addSlot isFree).mp isSlot with isSlot | ⟨-, isMade⟩
    · exact sound.directories isSlot
    · cases isMade
      exact distinct
  · rcases (slots_addSlot isFree).mp isSlot with isSlot | ⟨-, isMade⟩
    · rcases sound.entries isSlot isFound with
        ⟨inode, isOther⟩ | ⟨file, isOther, isName⟩
      · exact .inl ⟨inode, keeps isOther⟩
      · exact .inr ⟨file, keeps isOther, isName⟩
    · cases isMade
      rcases lookups _ _ isFound with rfl | ⟨inode, isOther⟩
      · exact .inl ⟨made, isNew⟩
      · exact .inl ⟨inode, keeps isOther⟩
  · obtain ⟨parent, number, isParent, isFound, isSlot⟩ := sound.names isName
    exact ⟨parent, number, keeps isParent, isFound, keeps isSlot⟩
  · exact sound.slotOnce (isFile.mp isFirst) (isFile.mp isSecond)
  · simp only [isFile]
    exact sound.born file
  · exact sound.gone isFreed (isFile.mp isSlot)

theorem names_eq_none (sound : TreeSound tree)
    (isDir : tree.slots dir = some (.directory parent))
    (missing : parent.lookup name = none) : tree.names dir name = none := by
  refine Option.eq_none_iff_forall_ne_some.mpr fun id isName => ?_
  obtain ⟨other, number, isParent, isFound, -⟩ := sound.names isName
  rw [isDir] at isParent
  cases isParent
  rw [missing] at isFound
  cases isFound

theorem named_bindName {bound : Option Nat} :
    (tree.bindName dir after name bound).Named id ↔
      bound = some id ∨
        ∃ other also, ¬ (other = dir ∧ also = name) ∧
          tree.names other also = some id := by
  show (∃ other also, (if other = dir ∧ also = name then bound
    else tree.names other also) = some id) ↔ _
  constructor
  · rintro ⟨other, also, isName⟩
    split at isName
    · exact .inl isName
    next differs => exact .inr ⟨other, also, differs, isName⟩
  · rintro (isBound | ⟨other, also, differs, isName⟩)
    · exact ⟨dir, name, by rw [if_pos ⟨rfl, rfl⟩, isBound]⟩
    · exact ⟨other, also, by rw [if_neg differs, isName]⟩

variable {bound : Option Nat}

theorem named_bindName_of_unnamed (unnamed : tree.names dir name = none) :
    (tree.bindName dir after name bound).Named id ↔
      bound = some id ∨ tree.Named id := by
  rw [named_bindName]
  refine or_congr Iff.rfl
    ⟨fun ⟨other, also, _, isName⟩ => ⟨other, also, isName⟩, ?_⟩
  rintro ⟨other, also, isName⟩
  refine ⟨other, also, ?_, isName⟩
  rintro ⟨rfl, rfl⟩
  rw [unnamed] at isName
  cases isName

theorem slots_bindName {bound : Option Nat} {other : Nat} :
    (tree.bindName dir after name bound).slots other =
      if other = dir then some (.directory after) else tree.slots other :=
  rfl

variable {also : List Char}

theorem names_bindName :
    (tree.bindName dir after name bound).names other also =
      if other = dir ∧ also = name then bound else tree.names other also :=
  rfl

theorem slots_bindName_file (isDir : tree.slots dir = some (.directory parent))
    {other file : Nat} :
    (tree.bindName dir after name bound).slots other = some (.file file) ↔
      tree.slots other = some (.file file) := by
  rw [slots_bindName]
  split
  next same =>
    rw [same, isDir]
    simp
  · rfl

theorem slots_bindName_directory
    (isDir : tree.slots dir = some (.directory parent)) {other : Nat} :
    (∃ inode, (tree.bindName dir after name bound).slots other =
        some (.directory inode)) ↔
      ∃ inode, tree.slots other = some (.directory inode) := by
  rw [slots_bindName]
  split
  next same =>
    rw [same, isDir]
    simp
  · rfl

theorem entries_bindName (sound : TreeSound tree)
    (isDir : tree.slots dir = some (.directory parent))
    {number bound : Option Nat} (target : tree.Target number bound)
    (lookups :
      ∀ asked,
        after.lookup asked =
          if asked = name then number else parent.lookup asked)
    {other num : Nat} {child : RamfsInode}
    (isSlot :
      (tree.bindName dir after name bound).slots other =
        some (.directory child)) (isFound : child.lookup also = some num) :
    (∃ inode, (tree.bindName dir after name bound).slots num =
        some (.directory inode)) ∨
      ∃ file, (tree.bindName dir after name bound).slots num =
          some (.file file) ∧
        (tree.bindName dir after name bound).names other also = some file := by
  simp only [slots_bindName_file isDir, slots_bindName_directory isDir,
    names_bindName]
  rw [slots_bindName] at isSlot
  split at isSlot
  next same =>
    cases isSlot
    subst same
    rw [lookups] at isFound
    split at isFound
    next isName =>
      cases target with
      | nothing =>
        cases isFound
      | @directory _ inode isTarget =>
        cases isFound
        exact .inl ⟨inode, isTarget⟩
      | @file _ file isTarget unnamed =>
        cases isFound
        exact .inr ⟨file, isTarget, if_pos ⟨rfl, isName⟩⟩
    next differs =>
      simp only [differs, and_false, if_false]
      exact sound.entries isDir isFound
  next differs =>
    simp only [differs, false_and, if_false]
    exact sound.entries isSlot isFound

theorem places_bindName (sound : TreeSound tree)
    (isDir : tree.slots dir = some (.directory parent))
    {number bound : Option Nat} (target : tree.Target number bound)
    (lookups :
      ∀ asked,
        after.lookup asked =
          if asked = name then number else parent.lookup asked)
    {other file : Nat}
    (isName :
      (tree.bindName dir after name bound).names other also = some file) :
    ∃ child num,
      (tree.bindName dir after name bound).slots other =
          some (.directory child) ∧
        child.lookup also = some num ∧
        (tree.bindName dir after name bound).slots num = some (.file file) := by
  simp only [slots_bindName_file isDir]
  rw [names_bindName] at isName
  split at isName
  next same =>
    cases target with
    | nothing =>
      cases isName
    | directory isTarget =>
      cases isName
    | @file found _ isTarget unnamed =>
      cases isName
      refine ⟨after, found, ?_, ?_, isTarget⟩
      · rw [slots_bindName, if_pos same.1]
      · rw [lookups, if_pos same.2]
  next differ =>
    obtain ⟨inode, number, isParent, isFound, isSlot⟩ := sound.names isName
    rw [slots_bindName]
    split
    next same =>
      rw [same, isDir] at isParent
      cases isParent
      refine ⟨after, number, rfl, ?_, isSlot⟩
      rw [lookups, if_neg fun isName => differ ⟨same, isName⟩, isFound]
    · exact ⟨inode, number, isParent, isFound, isSlot⟩

theorem nameOnce_bindName (sound : TreeSound tree) {number bound : Option Nat}
    (target : tree.Target number bound)
    {first second file : Nat} {firstName secondName : List Char}
    (isFirst :
      (tree.bindName dir after name bound).names first firstName = some file)
    (isSecond :
      (tree.bindName dir after name bound).names second secondName =
        some file) : second = first ∧ secondName = firstName := by
  have unnamed {other : Nat} {also : List Char} (isNew : bound = some file)
      (isName : tree.names other also = some file) : False := by
    cases target with
    | nothing =>
      cases isNew
    | directory isTarget =>
      cases isNew
    | file isTarget unnamed =>
      cases isNew
      exact unnamed ⟨other, also, isName⟩
  rw [names_bindName] at isFirst isSecond
  split at isFirst
  next sameFirst =>
    split at isSecond
    next sameSecond =>
      exact ⟨sameSecond.1.trans sameFirst.1.symm,
        sameSecond.2.trans sameFirst.2.symm⟩
    · exact (unnamed isFirst isSecond).elim
  · split at isSecond
    · exact (unnamed isSecond isFirst).elim
    · exact sound.nameOnce isFirst isSecond

theorem bindName (sound : TreeSound tree)
    (isDir : tree.slots dir = some (.directory parent))
    (distinct : after.Distinct) {number bound : Option Nat}
    (target : tree.Target number bound)
    (lookups :
      ∀ asked,
        after.lookup asked =
          if asked = name then number else parent.lookup asked) :
    TreeSound (tree.bindName dir after name bound) := by
  refine ⟨fun isSlot => ?_, fun isSlot => ?_,
    sound.entries_bindName isDir target lookups,
    sound.places_bindName isDir target lookups,
    sound.nameOnce_bindName target,
    fun isFirst isSecond => ?_, fun file => ?_, sound.freedOnce,
    fun isFreed isSlot => ?_⟩
  · rw [slots_bindName] at isSlot
    split at isSlot
    next same =>
      rw [same]
      exact sound.numbers isDir
    · exact sound.numbers isSlot
  · rw [slots_bindName] at isSlot
    split at isSlot
    · cases isSlot
      exact distinct
    · exact sound.directories isSlot
  · exact sound.slotOnce ((slots_bindName_file isDir).mp isFirst)
      ((slots_bindName_file isDir).mp isSecond)
  · simp only [slots_bindName_file isDir]
    exact sound.born file
  · exact sound.gone isFreed ((slots_bindName_file isDir).mp isSlot)

theorem slots_free {other : Nat} {slot : SlotShape} :
    (tree.free num id).slots other = some slot ↔
      other ≠ num ∧ tree.slots other = some slot := by
  show (if other = num then none else tree.slots other) = some slot ↔ _
  split
  next same => simp [same]
  next differs => simp [differs]

theorem free (sound : TreeSound tree)
    (isSlot : tree.slots num = some (.file id)) (unnamed : ¬ tree.Named id) :
    TreeSound (tree.free num id) := by
  have notDir {other : Nat} {inode : RamfsInode}
      (isDir : tree.slots other = some (.directory inode)) :
      other ≠ num := by
    rintro rfl
    rw [isSlot] at isDir
    cases isDir
  have notSlot {dir other file : Nat} {name : List Char}
      (isOther : tree.slots other = some (.file file))
      (isName : tree.names dir name = some file) :
      other ≠ num := by
    rintro rfl
    rw [isSlot] at isOther
    cases isOther
    exact unnamed ⟨dir, name, isName⟩
  have freed : (tree.free num id).freed = tree.freed ++ [id] := rfl
  refine ⟨fun isSlot => ?_, fun isSlot => ?_, fun isDir isFound => ?_,
    fun isName => ?_, sound.nameOnce, fun isFirst isSecond => ?_,
    fun file => ?_, ?_, fun isFreed isOther => ?_⟩
  · exact sound.numbers (slots_free.mp isSlot).2
  · exact sound.directories (slots_free.mp isSlot).2
  · rcases sound.entries (slots_free.mp isDir).2 isFound with
      ⟨inode, isOther⟩ | ⟨file, isOther, isName⟩
    · exact .inl ⟨inode, slots_free.mpr ⟨notDir isOther, isOther⟩⟩
    · exact .inr ⟨file,
        slots_free.mpr ⟨notSlot isOther isName, isOther⟩, isName⟩
  · obtain ⟨parent, number, isParent, isFound, isOther⟩ := sound.names isName
    exact ⟨parent, number, slots_free.mpr ⟨notDir isParent, isParent⟩,
      isFound, slots_free.mpr ⟨notSlot isOther isName, isOther⟩⟩
  · exact sound.slotOnce (slots_free.mp isFirst).2 (slots_free.mp isSecond).2
  · rw [freed, List.mem_append, List.mem_singleton, or_assoc]
    refine (sound.born file).trans (or_congr_right ⟨?_, ?_⟩)
    · rintro ⟨number, isOther⟩
      by_cases same : number = num
      · rw [same, isSlot] at isOther
        cases isOther
        exact .inl rfl
      · exact .inr ⟨number, slots_free.mpr ⟨same, isOther⟩⟩
    · rintro (rfl | ⟨number, isOther⟩)
      · exact ⟨num, isSlot⟩
      · exact ⟨number, (slots_free.mp isOther).2⟩
  · refine List.nodup_append.mpr ⟨sound.freedOnce, by simp, ?_⟩
    rintro file isFreed other isId rfl
    rw [List.mem_singleton.mp isId] at isFreed
    exact sound.gone isFreed isSlot
  · rw [freed, List.mem_append, List.mem_singleton] at isFreed
    obtain ⟨differs, isKept⟩ := slots_free.mp isOther
    rcases isFreed with isFreed | isId
    · exact sound.gone isFreed isKept
    · rw [isId] at isKept
      exact differs (sound.slotOnce isSlot isKept)

end TreeSound

end Idylla.Ramfs
