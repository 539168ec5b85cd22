import ClassAudit.Walk

/-!
# Handlers that share an entry

Many rows of an exception table may lead to one place: a `finally` has a row for each
range it guards, and one piece of code may catch several types. What a walk shows there
is the type that all of these handlers name or, if there is none, just a `Throwable`.
The table is read from the front with one answer kept for each entry, so it takes an
argument that neither the order of its rows nor their number matters
(`shared_entries_merged`). A walk only looks entries up, so nothing it shows depends on
them either (`Method.visits_sameEntries`).

To catch everything is both what a single handler may ask for and what is noted once
two of them differ. The note does not tell which it was. It need not: in either case no
row that follows brings a type back, which is the invariant of the fold
(`foldl_catchAlso`).
-/

namespace ClassAudit

/-! ## What one entry catches -/

/-- What an entry catches when one more handler begins there. -/
def catchAlso (caught : Option (Option String)) (catchType : Option String) :
    Option (Option String) :=
  match caught with
  | none => some catchType
  | some earlier => if earlier = catchType then some earlier else some none

/-- What handlers with these catch types catch together: nothing if there are none, the
type that all of them name if there is one, and everything otherwise. -/
def agreed : List (Option String) → Option (Option String)
  | [] => none
  | first :: rest => some (if ∀ other ∈ rest, other = first then first else none)

/-- Behind the first handler of an entry, the others keep its answer if they all give
the same one. -/
theorem foldl_catchAlso (first : Option String) (rest : List (Option String)) :
    rest.foldl catchAlso (some first) = agreed (first :: rest) := by
  induction rest generalizing first with
  | nil => simp [agreed]
  | cons second rest ih =>
      by_cases hsame : first = second
      · subst hsame
        rw [List.foldl_cons, catchAlso, if_pos rfl, ih]
        simp [agreed]
      · -- From here on everything is caught, whatever the rest says.
        rw [List.foldl_cons, catchAlso, if_neg hsame, ih]
        simp [agreed, Ne.symm hsame]

section Agreed

variable {types : List (Option String)}

theorem agreed_isSome : (agreed types).isSome ↔ ∃ catchType, catchType ∈ types := by
  cases types with
  | nil => simp [agreed]
  | cons first rest => simp [agreed]

theorem agreed_eq_type {type : String} :
    agreed types = some (some type) ↔
      (∃ catchType, catchType ∈ types) ∧
        ∀ catchType ∈ types, catchType = some type := by
  cases types with
  | nil => simp [agreed]
  | cons first rest =>
      rw [agreed, Option.some_inj]
      constructor
      · intro h
        split at h
        · next hall =>
            subst h
            exact ⟨⟨_, .head _⟩, List.forall_mem_cons.2 ⟨rfl, hall⟩⟩
        · cases h
      · rintro ⟨-, hall⟩
        obtain ⟨rfl, hrest⟩ := List.forall_mem_cons.1 hall
        rw [if_pos hrest]

theorem agreed_eq_everything :
    agreed types = some none ↔
      (∃ catchType, catchType ∈ types) ∧
        ¬ ∃ type, ∀ catchType ∈ types, catchType = some type := by
  constructor
  · intro h
    have hsome : ∃ catchType, catchType ∈ types := agreed_isSome.1 (by rw [h]; rfl)
    refine ⟨hsome, ?_⟩
    rintro ⟨type, hall⟩
    rw [agreed_eq_type.2 ⟨hsome, hall⟩] at h
    cases h
  · rintro ⟨hsome, hnone⟩
    obtain ⟨catchType, h⟩ := Option.isSome_iff_exists.1 (agreed_isSome.2 hsome)
    cases catchType with
    | none => exact h
    | some type => exact absurd ⟨type, (agreed_eq_type.1 h).2⟩ hnone

/-- Order and number do not matter. -/
theorem agreed_congr {others : List (Option String)}
    (h : ∀ catchType, catchType ∈ types ↔ catchType ∈ others) :
    agreed types = agreed others := by
  refine Option.ext fun catchType => ?_
  cases catchType with
  | none => simp only [agreed_eq_everything, h]
  | some type => simp only [agreed_eq_type, h]

end Agreed

/-! ## The table as a whole -/

/-- The catch types of the handlers that begin at an offset. -/
def catchTypesAt (handlers : List ExceptionHandler) (offset : Nat) :
    List (Option String) :=
  (handlers.filter (·.entry = offset)).map ExceptionHandler.catchType

/-- The handlers of two tables begin at the same places and name the same types there.
The ranges they guard may differ, and so may their order and number. -/
def SameEntries (handlers others : List ExceptionHandler) : Prop :=
  ∀ offset catchType,
    (∃ handler ∈ handlers, handler.entry = offset ∧ handler.catchType = catchType) ↔
      ∃ handler ∈ others, handler.entry = offset ∧ handler.catchType = catchType

section Table

variable {handlers others : List ExceptionHandler} {offset : Nat}

theorem mem_catchTypesAt {catchType : Option String} :
    catchType ∈ catchTypesAt handlers offset ↔
      ∃ handler ∈ handlers, handler.entry = offset ∧
        handler.catchType = catchType := by
  simp [catchTypesAt, and_assoc]

theorem exists_mem_catchTypesAt :
    (∃ catchType, catchType ∈ catchTypesAt handlers offset) ↔
      ∃ handler ∈ handlers, handler.entry = offset := by
  simp only [mem_catchTypesAt]
  constructor
  · rintro ⟨_, handler, hmem, hentry, _⟩
    exact ⟨handler, hmem, hentry⟩
  · rintro ⟨handler, hmem, hentry⟩
    exact ⟨_, handler, hmem, hentry, rfl⟩

theorem forall_mem_catchTypesAt {type : String} :
    (∀ catchType ∈ catchTypesAt handlers offset, catchType = some type) ↔
      ∀ handler ∈ handlers, handler.entry = offset →
        handler.catchType = some type := by
  simp only [mem_catchTypesAt]
  constructor
  · intro hall handler hmem hentry
    exact hall _ ⟨handler, hmem, hentry, rfl⟩
  · rintro hall _ ⟨handler, hmem, hentry, rfl⟩
    exact hall handler hmem hentry

/-- A handler has a say at its own entry only. -/
theorem addHandler_getElem? (entries : Std.TreeMap Nat (Option String))
    (handler : ExceptionHandler) (offset : Nat) :
    (addHandler entries handler)[offset]? =
      if handler.entry = offset then catchAlso entries[offset]? handler.catchType
      else entries[offset]? := by
  unfold addHandler
  by_cases hentry : handler.entry = offset
  · subst hentry
    rw [if_pos rfl]
    split
    · next hnone => rw [hnone, Std.TreeMap.getElem?_insert_self, catchAlso]
    · next catchType hsome =>
        rw [hsome, catchAlso]
        split
        · exact hsome
        · exact Std.TreeMap.getElem?_insert_self
  · rw [if_neg hentry]
    split
    · simp [Std.TreeMap.getElem?_insert, hentry]
    · split <;> simp [Std.TreeMap.getElem?_insert, hentry]

/-- Reading a table is done at each offset by itself. -/
theorem foldl_addHandler_getElem? (entries : Std.TreeMap Nat (Option String)) :
    (handlers.foldl addHandler entries)[offset]? =
      (catchTypesAt handlers offset).foldl catchAlso entries[offset]? := by
  induction handlers generalizing entries with
  | nil => rfl
  | cons handler rest ih =>
      rw [List.foldl_cons, ih, addHandler_getElem?]
      by_cases hentry : handler.entry = offset
      · simp [catchTypesAt, hentry]
      · simp [catchTypesAt, hentry]

theorem handlerEntries_getElem? :
    (handlerEntries handlers)[offset]? = agreed (catchTypesAt handlers offset) := by
  rw [handlerEntries, foldl_addHandler_getElem?, Std.TreeMap.getElem?_emptyc]
  cases catchTypesAt handlers offset with
  | nil => rfl
  | cons first rest => exact foldl_catchAlso first rest

theorem handlerEntries_isSome_iff :
    ((handlerEntries handlers)[offset]?).isSome ↔
      ∃ handler ∈ handlers, handler.entry = offset := by
  rw [handlerEntries_getElem?, agreed_isSome, exists_mem_catchTypesAt]

theorem SameEntries.getElem?_eq (h : SameEntries handlers others) (offset : Nat) :
    (handlerEntries handlers)[offset]? = (handlerEntries others)[offset]? := by
  rw [handlerEntries_getElem?, handlerEntries_getElem?]
  refine agreed_congr fun catchType => ?_
  rw [mem_catchTypesAt, mem_catchTypesAt]
  exact h offset catchType

theorem SameEntries.toList_eq (h : SameEntries handlers others) :
    (handlerEntries handlers).toList = (handlerEntries others).toList :=
  (Std.TreeMap.Equiv.of_forall_constGet?_eq h.getElem?_eq).toList_eq

theorem SameEntries.of_mem_iff (h : ∀ handler, handler ∈ handlers ↔ handler ∈ others) :
    SameEntries handlers others := by
  intro offset catchType
  simp only [h]

end Table

/-- The entries of an exception table are merged by what their handlers say, whatever
the order. An offset is an entry if some handler begins there. It catches one type if
all handlers that begin there name that type, and everything otherwise. So a table with
its rows in another order has the same entries, and one that repeats rows, with the
same range or another, has them too. -/
theorem shared_entries_merged (handlers : List ExceptionHandler) :
    (∀ offset, offset ∈ handlerEntries handlers ↔
      ∃ handler ∈ handlers, handler.entry = offset) ∧
    (∀ offset type, (handlerEntries handlers)[offset]? = some (some type) ↔
      (∃ handler ∈ handlers, handler.entry = offset) ∧
        ∀ handler ∈ handlers, handler.entry = offset →
          handler.catchType = some type) ∧
    (∀ offset, (handlerEntries handlers)[offset]? = some none ↔
      (∃ handler ∈ handlers, handler.entry = offset) ∧
        ¬ ∃ type, ∀ handler ∈ handlers, handler.entry = offset →
          handler.catchType = some type) ∧
    (∀ others, handlers.Perm others →
      (handlerEntries handlers).toList = (handlerEntries others).toList) ∧
    (∀ others, SameEntries handlers others →
      (handlerEntries handlers).toList = (handlerEntries others).toList) := by
  refine ⟨fun offset => ?_, fun offset type => ?_, fun offset => ?_,
    fun others hperm => ?_, fun others hsame => hsame.toList_eq⟩
  · rw [Std.TreeMap.mem_iff_isSome_getElem?, handlerEntries_isSome_iff]
  · rw [handlerEntries_getElem?, agreed_eq_type, exists_mem_catchTypesAt,
      forall_mem_catchTypesAt]
  · rw [handlerEntries_getElem?, agreed_eq_everything, exists_mem_catchTypesAt]
    simp only [forall_mem_catchTypesAt]
  · exact (SameEntries.of_mem_iff fun handler => hperm.mem_iff).toList_eq

/-- Two types in turn at 10, everything before a type at 20, and one type at 30. -/
def disputed : List ExceptionHandler :=
  [⟨0, 2, 10, some "java/io/IOException"⟩,
    ⟨0, 2, 10, some "java/lang/IllegalStateException"⟩,
    ⟨2, 4, 10, some "java/io/IOException"⟩,
    ⟨0, 2, 20, none⟩, ⟨0, 4, 20, some "java/io/IOException"⟩,
    ⟨0, 2, 30, some "java/io/IOException"⟩, ⟨4, 6, 30, some "java/io/IOException"⟩]

theorem shared_entries_merged_disputed :
    (handlerEntries disputed)[10]? = some none ∧
      (handlerEntries disputed)[20]? = some none ∧
      (handlerEntries disputed)[30]? = some (some "java/io/IOException") ∧
      40 ∉ handlerEntries disputed ∧
      (handlerEntries disputed).toList = (handlerEntries disputed.reverse).toList ∧
      (handlerEntries disputed).toList =
        (handlerEntries (disputed ++ disputed.reverse)).toList := by
  obtain ⟨hmem, htype, heverything, hperm, hsame⟩ := shared_entries_merged disputed
  have hturn : ¬ ∃ type, ∀ handler ∈ disputed, handler.entry = 10 →
      handler.catchType = some type := by
    rintro ⟨type, hall⟩
    have hfirst := hall _ (.head _) rfl
    have hsecond := hall _ (.tail _ (.head _)) rfl
    exact absurd (hfirst.trans hsecond.symm) (by decide)
  have hcatchAll : ¬ ∃ type, ∀ handler ∈ disputed, handler.entry = 20 →
      handler.catchType = some type := by
    rintro ⟨type, hall⟩
    cases hall _ (.tail _ (.tail _ (.tail _ (.head _)))) rfl
  refine ⟨(heverything 10).2 ⟨by decide, hturn⟩,
    (heverything 20).2 ⟨by decide, hcatchAll⟩,
    (htype 30 _).2 ⟨by decide, by decide⟩, ?_, ?_, ?_⟩
  · rw [hmem]
    decide
  · exact hperm _ disputed.reverse_perm.symm
  · exact hsame _ (.of_mem_iff fun handler => by simp)

/-! ## Walks -/

namespace Method

/-- A walk does nothing with entries but look them up. -/
theorem visitsFrom_entries {leaders : Std.TreeSet Nat}
    {entries entries' : Std.TreeMap Nat (Option String)}
    (h : ∀ offset : Nat, entries[offset]? = entries'[offset]?) (pool : ConstantPool)
    (locals : LocalVariables) (stack : OperandStack) (body : List Instruction) :
    visitsFrom leaders entries pool locals stack body =
      visitsFrom leaders entries' pool locals stack body := by
  induction body generalizing stack with
  | nil => rfl
  | cons i rest ih =>
      have harrive : arrive leaders entries stack i.offset =
          arrive leaders entries' stack i.offset := by
        rw [arrive, arrive, h]
      simp only [visitsFrom, harrive, ih]

/-- How an exception table is laid out does not show in a walk. -/
theorem visits_sameEntries {method : Method} {others : List ExceptionHandler}
    (h : SameEntries method.handlers others) (pool : ConstantPool) :
    method.visits pool = { method with handlers := others }.visits pool :=
  visitsFrom_entries h.getElem?_eq pool method.locals .fresh method.body

end Method

end ClassAudit
