import Idylla.Kernel.Vc

namespace Idylla.Kernel

/-!
# The arguments of an escape sequence

A separator counts the argument behind it, and the first digit of a sequence
counts the one that it belongs to, if no separator has.  A first argument that
is left out is never counted.
-/

/-- The byte of a decimal digit. -/
def digit (d : Fin 10) : BitVec 8 := code '0' + BitVec.ofNat 8 d

/-- The value of a decimal number, zero if there are no digits. -/
def number (digits : List (Fin 10)) : Nat :=
  digits.foldl (fun value d => 10 * value + d.val) 0

/-- The parameters behind the first one. -/
def fieldBytes (params : List (List (Fin 10))) : List (BitVec 8) :=
  params.flatMap fun param => code ';' :: param.map digit

/-- `ESC[` with parameters. -/
def introducer (params : List (List (Fin 10))) : List (BitVec 8) :=
  [0x1b, code '['] ++ (params.headD []).map digit ++ fieldBytes params.tail

/-- The console that handles the final byte has the arguments, and is done. -/
structure ParsesAs
    (vc : Vc) (params : List (List (Fin 10)))
    (final : BitVec 8) : Prop where
  handles : (vc.feed (introducer params)).esc = 2
  argc : (vc.feed (introducer params)).argc =
      if params = [] ∨ params = [[]] then 0 else params.length
  argv : ∀ i param, params[i]? = some param →
      ((vc.feed (introducer params)).argv i).toNat = number param
  ground : (vc.feed (introducer params ++ [final])).esc = 0

/-- The arguments of parameters. -/
def argvOf (params : List (List (Fin 10))) (i : Nat) : BitVec 32 :=
  BitVec.ofNat 32 (number (params[i]?.getD []))

/-- The console is inside of a sequence and has counted some parameters. -/
structure HasRead (vc : Vc) (params : List (List (Fin 10))) : Prop where
  esc : vc.esc = 2
  argc : vc.argc = params.length
  argv : vc.argv = argvOf params

section Steps

variable {vc : Vc} {params rest : List (List (Fin 10))} {last : List (Fin 10)}

theorem vcPutch_state (c : BitVec 8) (vc : Vc) :
    (vcPutch c vc).vc.esc = (vc.parse c).vc.esc ∧
      (vcPutch c vc).vc.argc = (vc.parse c).vc.argc ∧
      (vcPutch c vc).vc.argv = (vc.parse c).vc.argv := by
  unfold vcPutch Vc.scroll Vc.wrap Vc.moveTo
  dsimp only
  split <;> split <;> exact ⟨rfl, rfl, rfl⟩

theorem argvOf_append (params : List (List (Fin 10))) (digits : List (Fin 10)) :
    argvOf (params ++ [digits]) = fun i =>
      if i = params.length then BitVec.ofNat 32 (number digits)
      else argvOf params i := by
  funext i
  unfold argvOf
  rcases Nat.lt_trichotomy i params.length with below | rfl | above
  · rw [if_neg (Nat.ne_of_lt below), List.getElem?_append_left below]
  · simp
  · rw [if_neg (Nat.ne_of_gt above), List.getElem?_eq_none,
      List.getElem?_eq_none (Nat.le_of_lt above)]
    rw [List.length_append]
    exact above

theorem digit_spec (d : Fin 10) :
    ¬ (digit d = code ';') ∧ isdigit (digit d) ∧ digit d ≠ 0x1b ∧
      (digit d - code '0').setWidth 32 = BitVec.ofNat 32 d := by
  revert d
  decide

theorem digit_read (isSequence : vc.esc = 2)
    (isArgc : vc.argc = params.length + 1 ∨ vc.argc = 0 ∧ params = [])
    (isArgv : vc.argv = argvOf (params ++ [last])) (d : Fin 10) :
    HasRead (vcPutch (digit d) vc).vc (params ++ [last ++ [d]]) := by
  obtain ⟨notSeparator, isDigit, -, isValue⟩ := digit_spec d
  obtain ⟨isEsc, isCount, isValues⟩ := vcPutch_state (digit d) vc
  have counts : (if vc.argc = 0 then 1 else vc.argc) = params.length + 1 := by
    rcases isArgc with isArgc | ⟨isArgc, rfl⟩
    · rw [isArgc, if_neg (Nat.succ_ne_zero _)]
    · rw [isArgc, if_pos rfl]
      rfl
  have parsed : vc.parse (digit d) = vc.arguments (digit d) := by
    unfold Vc.parse
    rw [isSequence, if_neg (by decide), if_neg (by decide), if_pos rfl]
  rw [parsed, Vc.arguments, if_neg fun both => notSeparator both.1,
    if_pos isDigit, counts] at isEsc isCount isValues
  refine ⟨isEsc.trans isSequence, by simp [isCount], isValues.trans ?_⟩
  funext i
  simp only [Vc.setArg, Nat.add_sub_cancel, isArgv, argvOf_append]
  by_cases isLast : i = params.length
  · simp only [isLast, if_true, isValue, number, List.foldl_append,
      List.foldl_cons, List.foldl_nil, BitVec.ofNat_add, BitVec.ofNat_mul]
    rfl
  · simp only [isLast, if_false]

theorem HasRead.digits (read : HasRead vc (params ++ [last]))
    (more : List (Fin 10)) :
    HasRead (vc.feed (more.map digit)) (params ++ [last ++ more]) := by
  induction more generalizing vc last with
  | nil =>
    rw [List.append_nil]
    exact read
  | cons d more ih =>
    have next := digit_read read.esc (.inl (by simp [read.argc])) read.argv d
    have rest := ih next
    rw [List.append_assoc] at rest
    exact rest

theorem HasRead.separator (read : HasRead vc params)
    (room : params.length < VC_MAX_ARGS - 1) :
    HasRead (vcPutch (code ';') vc).vc (params ++ [[]]) := by
  obtain ⟨isEsc, isCount, isValues⟩ := vcPutch_state (code ';') vc
  have parsed : vc.parse (code ';') = vc.arguments (code ';') := by
    unfold Vc.parse
    rw [read.esc, if_neg (by decide), if_neg (by decide), if_pos rfl]
  rw [parsed, Vc.arguments, if_pos ⟨rfl, read.argc ▸ room⟩]
    at isEsc isCount isValues
  refine ⟨isEsc.trans read.esc, by simp [isCount, read.argc],
    isValues.trans (read.argv.trans ?_)⟩
  rw [argvOf_append]
  funext i
  split
  next isLast =>
    subst isLast
    simp [argvOf]
  · rfl

theorem HasRead.fields (read : HasRead vc params)
    (room : params.length + rest.length ≤ VC_MAX_ARGS - 1) :
    HasRead (vc.feed (fieldBytes rest)) (params ++ rest) := by
  induction rest generalizing vc params with
  | nil =>
    rw [List.append_nil]
    exact read
  | cons param rest ih =>
    rw [List.length_cons] at room
    have next := (read.separator (by omega)).digits param
    have fields := ih next (by simp; omega)
    simpa [fieldBytes, Vc.feed_append] using fields

theorem HasRead.closes (read : HasRead vc params)
    (full : params.length = VC_MAX_ARGS - 1) (digits : List (Fin 10)) :
    (vc.feed (fieldBytes [digits])).esc = 0 := by
  have closed : (vcPutch (code ';') vc).vc.esc = 0 := by
    refine (vcPutch_state _ vc).1.trans ?_
    unfold Vc.parse Vc.arguments
    rw [read.esc, if_neg (by decide), if_neg (by decide), if_pos rfl,
      if_neg fun both => Nat.ne_of_lt both.2 (read.argc.trans full),
      if_neg (by decide)]
    rfl
  have stays (vc : Vc) (ground : vc.esc = 0) :
      (vc.feed (digits.map digit)).esc = 0 := by
    induction digits generalizing vc with
    | nil =>
      exact ground
    | cons d digits ih =>
      refine ih _ ((vcPutch_state _ vc).1.trans ?_)
      unfold Vc.parse Vc.ground
      rw [if_pos ground, if_neg (digit_spec d).2.2.1]
      repeat' split
      all_goals exact ground
  simpa [fieldBytes] using stays _ closed

theorem final_ground {final : BitVec 8} (handles : vc.esc = 2)
    (isFinal : 0x40 ≤ final.toNat ∧ final.toNat ≤ 0x7e) :
    (vcPutch final vc).vc.esc = 0 := by
  have other : ∀ c : BitVec 8, 0x40 ≤ c.toNat ∧ c.toNat ≤ 0x7e →
        c ≠ code ';' ∧ ¬ isdigit c := by
    decide
  obtain ⟨notSeparator, notDigit⟩ := other final isFinal
  refine (vcPutch_state _ vc).1.trans ?_
  unfold Vc.parse Vc.arguments
  rw [handles, if_neg (by decide), if_neg (by decide), if_pos rfl,
    if_neg fun both => notSeparator both.1, if_neg notDigit]
  rfl

theorem introducer_read (ground : vc.esc = 0) (first : List (Fin 10)) :
    HasRead (vc.feed ([0x1b, code '['] ++ first.map digit))
      (if first = [] then [] else [first]) := by
  have begun : HasRead (vc.feed [0x1b, code '[']) [] := by
    have escaped := vcPutch_state 0x1b vc
    rw [show vc.parse 0x1b = vc.ground 0x1b from if_pos ground, Vc.ground,
      if_pos rfl] at escaped
    obtain ⟨isEsc, isArgc, isArgv⟩ := escaped
    have entered := vcPutch_state (code '[') (vcPutch 0x1b vc).vc
    have isEntered : (vcPutch 0x1b vc).vc.parse (code '[') =
        { vc := { (vcPutch 0x1b vc).vc with esc := 2 } } := by
      unfold Vc.parse
      rw [isEsc]
      rfl
    rw [isEntered] at entered
    rw [Vc.feed_cons, Vc.feed_cons, Vc.feed_nil]
    exact ⟨entered.1, entered.2.1.trans isArgc, entered.2.2.trans isArgv⟩
  rw [Vc.feed_append]
  cases first with
  | nil =>
    rw [List.map_nil, Vc.feed_nil, if_pos rfl]
    exact begun
  | cons d more =>
    rw [List.map_cons, Vc.feed_cons, if_neg (List.cons_ne_nil _ _)]
    have next := @digit_read _ [] [] begun.esc (.inr ⟨begun.argc, rfl⟩)
      (begun.argv.trans (funext fun i => by cases i <;> rfl)) d
    exact HasRead.digits next more

end Steps

/--
Arguments are parsed as written exactly if there is at most one, or there are
at most three of which the first is not left out.
-/
theorem parsesAs_iff
    {vc : Vc} {params : List (List (Fin 10))} {final : BitVec 8}
    (ground : vc.esc = 0) (most : params.length ≤ VC_MAX_ARGS)
    (bounded : ∀ param ∈ params, number param < 2 ^ 32)
    (isFinal : 0x40 ≤ final.toNat ∧ final.toNat ≤ 0x7e) :
    ParsesAs vc params final ↔
      params.length ≤ 1 ∨
        params.length < VC_MAX_ARGS ∧ params.head? ≠ some [] := by
  have ends (handles : (vc.feed (introducer params)).esc = 2) :
      (vc.feed (introducer params ++ [final])).esc = 0 := by
    rw [Vc.feed_append]
    exact final_ground handles isFinal
  have started := introducer_read ground (params.headD [])
  have isFed : vc.feed (introducer params) =
      (vc.feed ([0x1b, code '['] ++ (params.headD []).map digit)).feed
        (fieldBytes params.tail) :=
    vc.feed_append _ _
  have exactly (read : HasRead (vc.feed (introducer params)) params)
      (counted : params ≠ [[]]) : ParsesAs vc params final := by
    refine ⟨read.esc, read.argc.trans ?_, fun i param isParam => ?_,
      ends read.esc⟩
    · split
      next isNone =>
        rw [isNone.resolve_right counted]
        rfl
      · rfl
    · rw [read.argv, argvOf, isParam]
      exact Nat.mod_eq_of_lt (bounded param (List.mem_of_getElem? isParam))
  rcases params with _ | ⟨first, rest⟩
  · exact iff_of_true (exactly started (by simp)) (.inl (Nat.zero_le _))
  by_cases missing : first = []
  · subst missing
    have read : HasRead (vc.feed (introducer ([] :: rest))) rest := by
      rw [isFed]
      exact started.fields (by simp [VC_MAX_ARGS] at *; omega)
    cases rest with
    | nil =>
      refine iff_of_true ⟨read.esc, read.argc, fun i param isParam => ?_,
        ends read.esc⟩ (.inl (Nat.le_refl _))
      rw [read.argv]
      cases i with
      | zero =>
        cases isParam
        rfl
      | succ i =>
        cases isParam
    | cons second rest =>
      refine iff_of_false (fun parses => ?_) (by simp)
      have miscounted := read.argc.symm.trans parses.argc
      simp at miscounted
  · have counted : first :: rest ≠ [[]] := fun same =>
      missing (List.cons.inj same).1
    rw [List.headD_cons, if_neg missing] at started
    by_cases room : (first :: rest).length < VC_MAX_ARGS
    · have read : HasRead (vc.feed (introducer (first :: rest)))
          (first :: rest) := by
        rw [isFed]
        exact started.fields (by simp [VC_MAX_ARGS] at *; omega)
      exact iff_of_true (exactly read counted)
        (.inr ⟨room, fun isFirst => missing (Option.some.inj isFirst)⟩)
    · have full : rest.length = 3 := by
        simp [VC_MAX_ARGS] at *
        omega
      have longer : ¬ (first :: rest).length ≤ 1 := by
        rw [List.length_cons, full]
        decide
      refine iff_of_false (fun parses => ?_)
        fun fits => fits.elim longer fun fits => room fits.1
      obtain ⟨most, last, isRest⟩ : ∃ most last, rest = most ++ [last] :=
        ⟨_, _, (List.dropLast_concat_getLast
          (List.ne_nil_of_length_eq_add_one full)).symm⟩
      have two : most.length = 2 := by
        simpa [isRest] using full
      have read := @HasRead.fields _ _ most started (by simp [VC_MAX_ARGS, two])
      have closed := read.closes (by simp [VC_MAX_ARGS, two]) last
      have handles := parses.handles
      rw [isFed, List.tail_cons, isRest, fieldBytes, List.flatMap_append,
        Vc.feed_append] at handles
      exact absurd (closed.symm.trans handles) (by decide)

/-- `ESC[12;5H` -/
theorem position_parsesAs : ParsesAs vcBoot [[1, 2], [5]] (code 'H') :=
  (parsesAs_iff rfl (by decide) (by decide) (by decide)).mpr
    (.inr ⟨by decide, by decide⟩)

/-- `ESC[;5H`, where 5 gets the place of the first argument. -/
theorem missingFirst_misparsed :
    ¬ ∀ (vc : Vc) (params : List (List (Fin 10))) (final : BitVec 8),
      vc.esc = 0 → params.length ≤ VC_MAX_ARGS →
      (∀ param ∈ params, number param < 2 ^ 32) →
      0x40 ≤ final.toNat ∧ final.toNat ≤ 0x7e →
      ParsesAs vc params final := by
  intro parses
  have parsed :=
    parses vcBoot [[], [5]] (code 'H') rfl (by decide) (by decide) (by decide)
  exact absurd parsed.argc (by decide)

end Idylla.Kernel
