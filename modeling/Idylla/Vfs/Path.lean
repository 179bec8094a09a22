namespace Idylla.Vfs

/-!
# Path strings

The two path parsers of the virtual file system.  `str_explode` cuts a path
into its components from the front; `vfs_path_split` scans it from the back
for the slash in front of the last component.  A path is the list of the
characters before its terminating zero.
-/

/-- The longest directory part, with its terminating zero, that fits. -/
def PATH_MAX : Nat := 1024

/-- The longest file name. -/
def NAME_MAX : Nat := 255

/-- The name of the parent directory. -/
def dotDot : List Char := ['.', '.']

/-- The name of the directory itself. -/
def dot : List Char := ['.']

/--
The loop of `str_explode`: no token means that the loop is skipping
separators, a token is the component read so far.
-/
def explodeFrom (separator : Char) :
    List Char → Option (List Char) → List (List Char)
  | [], none => []
  | [], some token => [token]
  | next :: rest, none =>
    if next = separator then
      explodeFrom separator rest none
    else
      explodeFrom separator rest (some [next])
  | next :: rest, some token =>
    if next = separator then
      token :: explodeFrom separator rest none
    else
      explodeFrom separator rest (some (token ++ [next]))

/-- The components of a string, empty ones left out. -/
def strExplode (string : List Char) (separator : Char) : List (List Char) :=
  explodeFrom separator string none

/-- A path cut into the directory and the name in it. -/
structure VfsPath where
  path : List Char
  name : List Char
  deriving Repr, DecidableEq

/-- The backward scan of `vfs_path_split`, which stops at index 0. -/
def scanBack (path : List Char) : Nat → Nat
  | 0 => 0
  | position + 1 =>
    if path[position + 1]? = some '/' then
      position + 1
    else
      scanBack path position

/--
The copies of `vfs_path_split` once the last character is at index `len`;
`none` when one of them overruns its buffer in `struct vfs_path`.
-/
def splitUpTo (path : List Char) (len : Nat) : Option VfsPath :=
  let i := scanBack path len
  let name :=
    if path[i]? = some '/' then
      (path.drop (i + 1)).take (len - i)
    else
      (path.drop i).take (len - i + 1)
  let directory := if 0 < i then path.take i else []
  if name.length ≤ NAME_MAX ∧ directory.length < PATH_MAX then
    some { path := directory, name := name }
  else
    none

/--
`vfs_path_split`; `none` where it leaves its buffers.  The paths `""` and
`"/"` make it read the character in front of the string.
-/
def vfsPathSplit (path : List Char) : Option VfsPath :=
  match path.length with
  | 0 => none
  | len + 1 =>
    if path[len]? = some '/' then
      match len with
      | 0 => none
      | beforeSlash + 1 => splitUpTo path beforeSlash
    else
      splitUpTo path len

example :
    vfsPathSplit ['u', 's', 'r', '/', 'b', 'i', 'n', '/'] =
      some ⟨['u', 's', 'r'], ['b', 'i', 'n']⟩ := by decide

section ExplodeFrom

variable (separator next : Char) (rest token : List Char)

@[simp] theorem explodeFrom_nil (token : Option (List Char)) :
    explodeFrom separator [] token = token.toList := by
  cases token <;> rfl

@[simp] theorem explodeFrom_none :
    explodeFrom separator (next :: rest) none =
      if next = separator then explodeFrom separator rest none
      else explodeFrom separator rest (some [next]) := rfl

@[simp] theorem explodeFrom_some :
    explodeFrom separator (next :: rest) (some token) =
      if next = separator then token :: explodeFrom separator rest none
      else explodeFrom separator rest (some (token ++ [next])) := rfl

end ExplodeFrom

theorem explodeFrom_append_separator
    (separator : Char) (before after : List Char) (token : Option (List Char)) :
    explodeFrom separator (before ++ separator :: after) token =
      explodeFrom separator before token ++
        explodeFrom separator after none := by
  induction before generalizing token with
  | nil =>
    cases token <;> simp
  | cons next rest ih =>
    cases token with
    | none | some read =>
      by_cases isSeparator : next = separator <;>
        simp [isSeparator, ih]

theorem explodeFrom_token {separator : Char} {name : List Char}
    (noSeparator : separator ∉ name) (read : List Char) :
    explodeFrom separator name (some read) = [read ++ name] := by
  induction name generalizing read with
  | nil =>
    simp
  | cons next rest ih =>
    obtain ⟨nextDiffers, restFree⟩ : next ≠ separator ∧ separator ∉ rest := by
      simp only [List.mem_cons, not_or] at noSeparator
      exact ⟨fun same => noSeparator.1 same.symm, noSeparator.2⟩
    simp [nextDiffers, ih restFree]

theorem strExplode_name {separator : Char} {name : List Char}
    (noSeparator : separator ∉ name) (nonempty : name ≠ []) :
    strExplode name separator = [name] := by
  cases name with
  | nil =>
    exact absurd rfl nonempty
  | cons next rest =>
    obtain ⟨nextDiffers, restFree⟩ : next ≠ separator ∧ separator ∉ rest := by
      simp only [List.mem_cons, not_or] at noSeparator
      exact ⟨fun same => noSeparator.1 same.symm, noSeparator.2⟩
    simp [strExplode, nextDiffers, explodeFrom_token restFree]

theorem strExplode_append_separator (separator : Char)
    (before after : List Char) :
    strExplode (before ++ separator :: after) separator =
      strExplode before separator ++ strExplode after separator :=
  explodeFrom_append_separator separator before after none

theorem strExplode_replicate (separator : Char) (count : Nat) :
    strExplode (List.replicate count separator) separator = [] := by
  induction count with
  | zero =>
    rfl
  | succ count ih =>
    simpa [List.replicate_succ, strExplode] using ih

theorem strExplode_append_replicate (separator : Char) (string : List Char)
    (count : Nat) :
    strExplode (string ++ List.replicate count separator) separator =
      strExplode string separator := by
  cases count with
  | zero =>
    simp
  | succ count =>
    rw [List.replicate_succ, strExplode_append_separator,
      strExplode_replicate, List.append_nil]

/-- Nothing, or a string with a slash at its end. -/
def EndsInSlash (string : List Char) : Prop :=
  string = [] ∨ ∃ directory, string = directory ++ ['/']

/--
A path is what precedes its last component, that component, and the slashes
behind it.
-/
structure PathShape
    (path before last : List Char)
    (slashes : Nat) : Prop where
  isPath : path = before ++ last ++ List.replicate slashes '/'
  nonempty : last ≠ []
  noSlash : '/' ∉ last
  before_ends : EndsInSlash before

private theorem exists_name_behind_slash (string : List Char) :
    ∃ before name,
      string = before ++ name ∧ '/' ∉ name ∧ EndsInSlash before := by
  induction string with
  | nil =>
    exact ⟨[], [], rfl, by simp, .inl rfl⟩
  | cons next rest ih =>
    obtain ⟨before, name, rfl, noSlash, ends⟩ := ih
    rcases ends with rfl | ⟨directory, rfl⟩
    · by_cases isSlash : next = '/'
      · exact ⟨['/'], name, by simp [isSlash], noSlash, .inr ⟨[], rfl⟩⟩
      · refine ⟨[], next :: name, rfl, ?_, .inl rfl⟩
        simp only [List.mem_cons, not_or]
        exact ⟨fun same => isSlash same.symm, noSlash⟩
    · exact ⟨next :: (directory ++ ['/']), name, rfl, noSlash,
        .inr ⟨next :: directory, rfl⟩⟩

private theorem exists_trailing_slashes (string : List Char) :
    ∃ body slashes,
      string = body ++ List.replicate slashes '/' ∧
        ∀ directory, body ≠ directory ++ ['/'] := by
  induction string with
  | nil =>
    exact ⟨[], 0, rfl, by simp⟩
  | cons next rest ih =>
    obtain ⟨body, slashes, rfl, bare⟩ := ih
    cases body with
    | nil =>
      by_cases isSlash : next = '/'
      · exact ⟨[], slashes + 1, by simp [isSlash, List.replicate_succ], by simp⟩
      · refine ⟨[next], slashes, rfl, ?_⟩
        intro directory same
        cases directory <;> simp_all
    | cons head tail =>
      refine ⟨next :: head :: tail, slashes, rfl, ?_⟩
      intro directory same
      cases directory with
      | nil =>
        simp at same
      | cons first others =>
        exact bare others (List.cons.inj same).2

variable {path : List Char}

theorem exists_pathShape (hasComponent : strExplode path '/' ≠ []) :
    ∃ before last slashes, PathShape path before last slashes := by
  obtain ⟨body, slashes, rfl, bare⟩ := exists_trailing_slashes path
  obtain ⟨before, last, rfl, noSlash, ends⟩ := exists_name_behind_slash body
  refine ⟨before, last, slashes, rfl, ?_, noSlash, ends⟩
  rintro rfl
  rcases ends with rfl | ⟨directory, rfl⟩
  · exact hasComponent (strExplode_replicate '/' slashes)
  · exact bare directory (by simp)

namespace PathShape

variable {path before last : List Char} {slashes : Nat}

theorem strExplode_eq (shape : PathShape path before last slashes) :
    strExplode path '/' = strExplode before '/' ++ [last] := by
  rw [shape.isPath, strExplode_append_replicate]
  have single := strExplode_name shape.noSlash shape.nonempty
  rcases shape.before_ends with rfl | ⟨directory, rfl⟩
  · simpa [strExplode] using single
  · have trailing := strExplode_append_separator '/' directory []
    rw [List.append_assoc, List.singleton_append,
      strExplode_append_separator, single, trailing]
    simp [strExplode]

theorem strExplode_dropLast (shape : PathShape path before last slashes) :
    strExplode before.dropLast '/' = strExplode before '/' := by
  rcases shape.before_ends with rfl | ⟨directory, rfl⟩
  · rfl
  · simpa using (strExplode_append_replicate '/' directory 1).symm

end PathShape

theorem scanBack_eq {position len : Nat} (inRange : position ≤ len)
    (stops : position = 0 ∨ path[position]? = some '/')
    (noLater :
      ∀ later, position < later → later ≤ len → path[later]? ≠ some '/') :
    scanBack path len = position := by
  induction len with
  | zero =>
    simp only [scanBack]
    omega
  | succ len ih =>
    rcases Nat.lt_or_eq_of_le inRange with earlier | here
    · rw [scanBack, if_neg (noLater _ earlier (Nat.le_refl _))]
      exact ih (by omega)
        fun later behind bounded => noLater later behind (by omega)
    · subst here
      rcases stops with atStart | isSlash
      · omega
      · rw [scanBack, if_pos isSlash]

theorem splitUpTo_some {len i : Nat} {split : VfsPath}
    (scanned : scanBack path len = i)
    (splits : splitUpTo path len = some split) :
    split.path = (if 0 < i then path.take i else []) ∧
      split.name =
        if path[i]? = some '/' then
          (path.drop (i + 1)).take (len - i)
        else
          (path.drop i).take (len - i + 1) := by
  unfold splitUpTo at splits
  dsimp only at splits
  rw [scanned] at splits
  generalize (if path[i]? = some '/' then
      (path.drop (i + 1)).take (len - i)
    else
      (path.drop i).take (len - i + 1)) = name at splits ⊢
  generalize (if 0 < i then path.take i else []) = directory at splits ⊢
  split at splits
  · rw [Option.some.injEq] at splits
    subst splits
    exact ⟨rfl, rfl⟩
  · simp at splits

private theorem vfsPathSplit_append_slash (body : List Char) :
    vfsPathSplit (body ++ ['/']) = if body = [] then none
      else splitUpTo (body ++ ['/']) (body.length - 1) := by
  cases body with
  | nil =>
    rfl
  | cons head tail =>
    simp [vfsPathSplit]

private theorem vfsPathSplit_no_slash (nonempty : path ≠ [])
    (noSlash : path[path.length - 1]? ≠ some '/') :
    vfsPathSplit path = splitUpTo path (path.length - 1) := by
  cases path with
  | nil =>
    exact absurd rfl nonempty
  | cons head tail =>
    simp only [List.length_cons, Nat.add_sub_cancel] at noSlash
    simp only [vfsPathSplit, List.length_cons, Nat.add_sub_cancel,
      if_neg noSlash]

namespace PathShape

variable {path before last : List Char} {slashes : Nat}

variable (shape : PathShape path before last slashes)

include shape

theorem scanBack_last :
    scanBack path (before.length + last.length - 1) = before.length - 1 := by
  apply scanBack_eq
  · omega
  · rcases shape.before_ends with rfl | ⟨directory, rfl⟩
    · exact .inl rfl
    · exact .inr (by simp [shape.isPath])
  · intro later behind bounded isSlash
    rw [shape.isPath, List.append_assoc, List.getElem?_append_right (by omega),
      List.getElem?_append_left (by omega)] at isSlash
    exact shape.noSlash (List.mem_of_getElem? isSlash)

theorem splitUpTo_last {split : VfsPath}
    (splits : splitUpTo path (before.length + last.length - 1) = some split) :
    split.path = before.dropLast ∧ split.name = last := by
  have lastPositive : 0 < last.length := List.length_pos_iff.mpr shape.nonempty
  obtain ⟨isDirectory, isName⟩ := splitUpTo_some shape.scanBack_last splits
  rw [isDirectory, isName]
  rcases shape.before_ends with rfl | ⟨directory, rfl⟩
  · have notSlash : path[0]? ≠ some '/' := by
      rw [shape.isPath, List.nil_append, List.getElem?_append_left lastPositive]
      exact fun isSlash => shape.noSlash (List.mem_of_getElem? isSlash)
    have wholeName : 0 + last.length - 1 - (0 - 1) + 1 = last.length := by
      omega
    simp only [List.length_nil, wholeName, Nat.zero_sub, if_neg notSlash]
    simp [shape.isPath]
  · rw [List.dropLast_concat]
    cases directory with
    | nil | cons head tail =>
      simp [shape.isPath]

theorem vfsPathSplit_eq (fewSlashes : slashes ≤ 1) {split : VfsPath}
    (splits : vfsPathSplit path = some split) :
    split.path = before.dropLast ∧ split.name = last := by
  have lastPositive : 0 < last.length := List.length_pos_iff.mpr shape.nonempty
  apply shape.splitUpTo_last
  have isPath := shape.isPath
  obtain rfl | rfl : slashes = 0 ∨ slashes = 1 := by omega
  · rw [vfsPathSplit_no_slash] at splits
    · simpa [isPath] using splits
    · simp [isPath, shape.nonempty]
    · rw [isPath, List.replicate_zero, List.append_nil,
        List.getElem?_append_right (by simp; omega)]
      exact fun isSlash => shape.noSlash (List.mem_of_getElem? isSlash)
  · rw [isPath, List.replicate_one, vfsPathSplit_append_slash,
      if_neg (by simp [shape.nonempty]), List.length_append] at splits
    rw [isPath, List.replicate_one]
    exact splits

theorem slashes_le_one (notTwo : ¬ ['/', '/'] <:+ path) : slashes ≤ 1 := by
  apply Decidable.byContradiction
  intro many
  obtain ⟨more, rfl⟩ : ∃ more, slashes = more + 2 := ⟨slashes - 2, by omega⟩
  refine notTwo ⟨before ++ last ++ List.replicate more '/', ?_⟩
  rw [shape.isPath, List.replicate_succ', List.replicate_succ']
  simp

end PathShape

theorem vfsPathSplit_name_empty
    (twoSlashes : ['/', '/'] <:+ path) {split : VfsPath}
    (splits : vfsPathSplit path = some split) : split.name = [] := by
  obtain ⟨body, rfl⟩ := twoSlashes
  have isPath : body ++ ['/', '/'] = body ++ ['/'] ++ ['/'] := by
    simp
  have bodyNonempty : body ++ ['/'] ≠ [] := by simp
  rw [isPath, vfsPathSplit_append_slash, if_neg bodyNonempty] at splits
  have isSlash :
      (body ++ ['/'] ++ ['/'])[(body ++ ['/']).length - 1]? = some '/' := by
    simp
  have scanned := scanBack_eq (Nat.le_refl _) (.inr isSlash)
    (fun later behind bounded => by omega)
  have isName := (splitUpTo_some scanned splits).2
  simpa using isName

end Idylla.Vfs
