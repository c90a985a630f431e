import PolicyLint.Proofs.Catalog.Steps

/-!
# Programs that construct rules

A `Request` asks a registry for one rule. A `Program` makes requests one after the other, and
each may depend on what came of those before; nothing else in it needs the registry. Run on its
own, it is a step that numbers rules (`Program.alone`), but other programs may as well make
requests between its own.

`Program.Keeps` says what holds of the result of a program when something holds of all the rules
it is given, whatever happens in between.
-/

namespace PolicyLint

/-! ## Requests -/

/-- A rule to construct : of some kind, with the text of a removal date, or the rule of a
catalog. -/
inductive Request
  | typeAlias (name : String) (removedAfter : Option String)
  | field (name replacement : String) (removedAfter : Option String)
  | element (kind : ElementKind) (name replacement : String) (removedAfter : Option String)
  | filter (name replacement : String) (removedAfter : Option String)
  | action (name replacement : String) (removedAfter : Option String)
  | mode (name replacement : String) (removedAfter : Option String)
  | optionalField (name : String) (removedAfter : Option String)
  | optionalFields (names : List String) (removedAfter : Option String)
  | ofDraft (draft : RuleDraft)

namespace Request

/-- Construct the rule. -/
def construct : Request → Construction RuleError Rule
  | typeAlias name removedAfter => Rule.typeAlias name removedAfter
  | field name replacement removedAfter => Rule.field name replacement removedAfter
  | element kind name replacement removedAfter => Rule.element name replacement removedAfter kind
  | filter name replacement removedAfter => Rule.filter name replacement removedAfter
  | action name replacement removedAfter => Rule.action name replacement removedAfter
  | mode name replacement removedAfter => Rule.mode name replacement removedAfter
  | optionalField name removedAfter => Rule.optionalField name removedAfter
  | optionalFields names removedAfter => Rule.optionalFields removedAfter names
  | ofDraft draft => draft.build

/-- A text for a removal date, as untyped data. -/
def dateValue : Option String → Value
  | none => .null
  | some text => .string text

/-- The rule as the draft of a catalog would have it. -/
def draft : Request → RuleDraft
  | typeAlias name removedAfter => ⟨.typeAlias name, dateValue removedAfter, none⟩
  | field name replacement removedAfter => ⟨.field name replacement, dateValue removedAfter, none⟩
  | element kind name replacement removedAfter =>
    ⟨.element kind name replacement, dateValue removedAfter, none⟩
  | filter name replacement removedAfter =>
    ⟨.element .filter name replacement, dateValue removedAfter, none⟩
  | action name replacement removedAfter =>
    ⟨.element .action name replacement, dateValue removedAfter, none⟩
  | mode name replacement removedAfter =>
    ⟨.element .mode name replacement, dateValue removedAfter, none⟩
  | optionalField name removedAfter => ⟨.optionalField name, dateValue removedAfter, none⟩
  | optionalFields names removedAfter => ⟨.optionalFields names, dateValue removedAfter, none⟩
  | ofDraft draft => draft

theorem ofKind_eq_build (form : RuleForm) (removedAfter : Option String) :
    Rule.ofKind form.kind removedAfter = RuleDraft.build ⟨form, dateValue removedAfter, none⟩ := by
  have hdate : RemovalDate.parseOptional removedAfter =
      RemovalDate.ofValue (dateValue removedAfter) := by
    cases removedAfter <;> rfl
  rw [Rule.ofKind, RuleDraft.build, hdate]
  simp

/-- Every rule is constructed as that of a catalog. -/
theorem construct_eq_build (request : Request) : request.construct = request.draft.build := by
  cases request with
  | typeAlias name => exact ofKind_eq_build (.typeAlias name) _
  | field name replacement => exact ofKind_eq_build (.field name replacement) _
  | element kind name replacement => exact ofKind_eq_build (.element kind name replacement) _
  | filter name replacement => exact ofKind_eq_build (.element .filter name replacement) _
  | action name replacement => exact ofKind_eq_build (.element .action name replacement) _
  | mode name replacement => exact ofKind_eq_build (.element .mode name replacement) _
  | optionalField name => exact ofKind_eq_build (.optionalField name) _
  | optionalFields names => exact ofKind_eq_build (.optionalFields names) _
  | ofDraft draft => rfl

/-- A request that is valid is given the next rule, and one that is not changes nothing. -/
theorem constructs_or_fails (request : Request) (registry : Registry) :
    (∃ rule, request.construct.run.run registry = (.ok rule, ⟨registry.next + 1⟩) ∧
      request.draft.Describes rule ∧ rule.id = registry.next) ∨
      ∃ error, request.construct.run.run registry = (.error error, registry) ∧
        request.draft.Fails error := by
  rw [construct_eq_build]
  exact request.draft.constructs_or_fails registry

end Request

/-! ## Programs -/

/-- What is left of a computation : it has come to an end, or makes a request and goes on with
what comes of it. -/
inductive Program (ε α : Type)
  | done (result : Except ε α)
  | construct (request : Request) (next : Except RuleError Rule → Program ε α)

namespace Program

variable {ε α β : Type}

/-- A program with another one behind it, unless it fails. -/
def bind : Program ε α → (α → Program ε β) → Program ε β
  | done (.ok value), rest => rest value
  | done (.error error), _ => done (.error error)
  | construct request next, rest => construct request fun result => (next result).bind rest

instance : Monad (Program ε) where
  pure value := done (.ok value)
  bind := bind

instance : LawfulMonad (Program ε) := by
  refine .mk' _ (fun program => ?_) (fun _ _ => rfl) (fun program f g => ?_)
  · induction program with
    | done result => cases result <;> rfl
    | construct request next ih => exact congrArg (construct request) (funext ih)
  · induction program with
    | done result => cases result <;> rfl
    | construct request next ih => exact congrArg (construct request) (funext ih)

/-- A program with its error restated. -/
def mapError {δ : Type} (f : ε → δ) : Program ε α → Program δ α
  | done result => done (result.mapError f)
  | construct request next => construct request fun result => (next result).mapError f

/-- A program run on its own. -/
def alone : Program ε α → Construction ε α
  | done result => Construction.ofExcept result
  | construct request next => do
    let result ← ExceptT.lift request.construct.run
    (next result).alone

theorem alone_pure (value : α) : (pure value : Program ε α).alone = pure value :=
  rfl

theorem alone_bind (program : Program ε α) (rest : α → Program ε β) :
    (program >>= rest).alone = program.alone >>= fun value => (rest value).alone := by
  induction program with
  | done result => cases result <;> rfl
  | construct request next ih =>
    change (ExceptT.lift request.construct.run >>= fun result => (next result >>= rest).alone) = _
    simp only [ih, alone, bind_assoc]

theorem alone_map (f : α → β) (program : Program ε α) :
    (f <$> program).alone = f <$> program.alone := by
  rw [map_eq_pure_bind, map_eq_pure_bind, alone_bind]
  rfl

theorem alone_mapM (f : α → Program ε β) (items : List α) :
    (items.mapM f).alone = items.mapM fun item => (f item).alone := by
  induction items with
  | nil => rfl
  | cons item items ih => simp only [List.mapM_cons, alone_bind, alone_pure, ih]

theorem alone_mapError {δ : Type} (f : ε → δ) (program : Program ε α) :
    (program.mapError f).alone = program.alone.mapError f := by
  induction program with
  | done result => cases result <;> rfl
  | construct request next ih => exact funext fun registry => congrFun (ih _) _

end Program

/-- The program that makes one request. -/
def Request.program (request : Request) : Program RuleError Rule :=
  .construct request .done

theorem Request.alone_program (request : Request) : request.program.alone = request.construct := by
  refine funext fun registry => ?_
  change ((Construction.ofExcept (request.construct.run.run registry).1 :
    Construction RuleError Rule).run.run (request.construct.run.run registry).2) =
    request.construct.run.run registry
  generalize request.construct.run.run registry = ended
  obtain ⟨result, registry'⟩ := ended
  cases result <;> rfl

/-! ## What programs keep -/

namespace Program

variable {ε α β : Type}

/-- If all rules that the program is given have a property, its result has one. -/
def Keeps (P : Rule → Prop) (post : α → Prop) : Program ε α → Prop
  | done result => ∀ value, result = .ok value → post value
  | construct _ next => ∀ result, (∀ rule, result = .ok rule → P rule) → (next result).Keeps P post

namespace Keeps

variable {P : Rule → Prop} {post : α → Prop} {post' : β → Prop} {program : Program ε α}

theorem pure {value : α} (h : post value) : (Pure.pure value : Program ε α).Keeps P post := by
  intro value' hvalue
  obtain rfl := Except.ok.inj hvalue
  exact h

theorem error (error : ε) : (done (.error error) : Program ε α).Keeps P post :=
  nofun

theorem bind {rest : α → Program ε β} (h : program.Keeps P post)
    (hrest : ∀ value, post value → (rest value).Keeps P post') :
    (program >>= rest).Keeps P post' := by
  induction program with
  | done result =>
    cases result with
    | error e => exact error e
    | ok value => exact hrest value (h value rfl)
  | construct request next ih => exact fun result hresult => ih result (h result hresult)

theorem map {f : α → β} (h : program.Keeps P post) (hf : ∀ value, post value → post' (f value)) :
    (f <$> program).Keeps P post' := by
  rw [map_eq_pure_bind]
  exact h.bind fun value hvalue => pure (hf value hvalue)

theorem mapM {f : α → Program ε β} (h : ∀ item, (f item).Keeps P post') (items : List α) :
    (items.mapM f).Keeps P fun values => ∀ value ∈ values, post' value := by
  induction items with
  | nil => exact pure nofun
  | cons item items ih =>
    rw [List.mapM_cons]
    refine (h item).bind fun value hvalue => ih.bind fun values hvalues => pure ?_
    exact List.forall_mem_cons.2 ⟨hvalue, hvalues⟩

theorem mapError {δ : Type} (f : ε → δ) (h : program.Keeps P post) :
    (program.mapError f).Keeps P post := by
  induction program with
  | done result =>
    cases result with
    | error e => exact error (f e)
    | ok value => exact pure (h value rfl)
  | construct request next ih => exact fun result hresult => ih result (h result hresult)

end Keeps

end Program

theorem Request.keeps_program {P : Rule → Prop} (request : Request) : request.program.Keeps P P :=
  fun _ hresult => hresult

end PolicyLint
