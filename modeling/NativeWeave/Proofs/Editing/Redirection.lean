import NativeWeave.Proofs.Editing.Bodies
import NativeWeave.Proofs.Editing.Construction
import NativeWeave.Proofs.Editing.Exchange
import NativeWeave.Proofs.Extraction.Checked
import NativeWeave.Proofs.Marshalling.Fields

namespace NativeWeave

/-!
# Methods whose uses of hidden fields are redirected

In a method that is neither a constructor nor an accessor, a load of a hidden field gives way to a
call of the getter and a store to one of the setter, and nothing else changes.  An instruction that
cannot be redirected is a mistake, and then nothing is edited at all.
-/

/-- What becomes of an instruction: a load of a hidden field becomes a call of the getter of its
property, a store a call of the setter, and an instruction that uses no hidden field stays. -/
inductive ClassBinding.Redirects (binding : ClassBinding) (source tables : Tables)
    (type : TypeDef) : Instr → Instr → Prop
  | load {token : UInt32} {member : MemberBinding} {property : Property} {access : BackingAccess}
      (listed : member ∈ binding.members) (exposes : type.Exposes member property)
      (hidden : type.IsHiddenField source member.name token)
      (means : access.Means tables type member property) :
      Redirects binding source tables type (.loadField token) (.call access.getter)
  | store {token setter : UInt32} {member : MemberBinding} {property : Property}
      {access : BackingAccess} (listed : member ∈ binding.members)
      (exposes : type.Exposes member property)
      (hidden : type.IsHiddenField source member.name token)
      (means : access.Means tables type member property) (given : access.setter = some setter) :
      Redirects binding source tables type (.storeField token) (.call setter)
  | other {instr : Instr} (spares : ∀ token ∈ instr.fieldToken?, ¬ binding.Hides source type token) :
      Redirects binding source tables type instr instr

/-- What becomes of a body that may be missing.  A prelude in place of a missing body counts as code
behind which nothing stands. -/
inductive Body.Exchanges (prelude : Fragment) (related : Instr → Instr → Prop) :
    Option Body → Option Body → Prop
  | missing (nothing : prelude = []) : Exchanges prelude related none none
  | present {body later : Body} (exchanged : body.Exchanged prelude related later) :
      Exchanges prelude related (some body) (some later)
  | prelude {later : Body} (something : prelude ≠ [])
      (exchanged : ({} : Body).Exchanged prelude related later) :
      Exchanges prelude related none (some later)

namespace ClassBinding

variable {binding : ClassBinding} {source tables : Tables} {type : TypeDef} {instr other : Instr}

theorem Redirects.size_eq (redirects : binding.Redirects source tables type instr other) :
    other.size = instr.size := by
  cases redirects <;> rfl

end ClassBinding

/-! ## Redirected instructions -/

namespace Backing

variable {backing : Backing} {binding : ClassBinding} {source tables : Tables} {type : TypeDef}
  {instr : Instr} {token : UInt32}

theorem touched?_eq (backing : Backing) (instr : Instr) :
    backing.touched? instr = instr.fieldToken?.bind backing.access? := by
  cases instr with
  | member op token => cases op <;> rfl
  | _ => rfl

theorem size_redirect (backing : Backing) (instr : Instr) :
    (backing.redirect instr).size = instr.size := by
  rcases backing.redirect_eq_or instr with same | ⟨op, token, accessor, rfl, same⟩
  · rw [same]
  · rw [same]
    rfl

/-- The table knows the fields. -/
def Knows (backing : Backing) (hidden : UInt32 → Prop) : Prop :=
  ∀ token, hidden token → backing.has token = true

theorem Serves.knows (serves : backing.Serves source tables type binding) :
    backing.Knows (binding.Hides source type) := by
  rintro token ⟨member, listed, property, exposes, hidden⟩
  exact serves.complete member listed property exposes token hidden

/-- What touches no field in the table uses none that the table knows. -/
theorem Knows.not_of_touched? {hidden : UInt32 → Prop} (knows : backing.Knows hidden)
    (untouched : backing.touched? instr = none) (uses : instr.fieldToken? = some token) :
    ¬ hidden token := by
  intro hides
  have known := knows token hides
  rw [touched?_eq, uses, Option.bind_some] at untouched
  rw [has, untouched] at known
  cases known

/-- Where nothing uses a hidden field afterwards, its uses have been redirected to accessors. -/
theorem Serves.redirects (serves : backing.Serves source tables type binding)
    (fine : backing.touched? (backing.redirect instr) = none) :
    binding.Redirects source tables type instr (backing.redirect instr) := by
  have stays : backing.redirect instr = instr →
      binding.Redirects source tables type instr (backing.redirect instr) := by
    intro same
    rw [same] at fine ⊢
    exact .other fun token uses => serves.knows.not_of_touched? fine uses
  cases instr with
  | member op token =>
    cases op with
    | loadField =>
      cases found : backing.access? token with
      | none => exact stays (by simp only [redirect, found, Option.map_none, Option.getD_none])
      | some access =>
        rcases serves.sound found with ⟨member, listed, property, exposes, hidden, means⟩
        simp only [redirect, found, Option.map_some, Option.getD_some]
        exact .load listed exposes hidden means
    | storeField =>
      cases found : backing.access? token with
      | none => exact stays (by simp only [redirect, found, Option.bind_none, Option.map_none,
          Option.getD_none])
      | some access =>
        rcases serves.sound found with ⟨member, listed, property, exposes, hidden, means⟩
        cases given : access.setter with
        | none => exact stays (by simp only [redirect, found, Option.bind_some, given,
            Option.map_none, Option.getD_none])
        | some setter =>
          simp only [redirect, found, Option.bind_some, given, Option.map_some, Option.getD_some]
          exact .store listed exposes hidden means given
    | _ => exact stays rfl
  | _ => exact stays rfl

end Backing

/-! ## Bodies that may be missing -/

namespace Body

variable {related : Instr → Instr → Prop} {prelude : Fragment} {body? middle? later? : Option Body}

theorem exchanges_self (still : ∀ body ∈ body?, ∀ code, body.toCode = .ok code →
    ∀ instr ∈ code.instrs, related instr instr) : Exchanges [] related body? body? := by
  cases body? with
  | none => exact .missing rfl
  | some body => exact .present (exchanged_self (still body rfl))

/-- What is put in front of a body comes in front of what has been exchanged in it. -/
theorem Exchanges.prepend (exchanges : Exchanges [] related body? middle?)
    (sized : ∀ {instr other : Instr}, related instr other → other.size = instr.size)
    (straight : ∀ instr ∈ prelude, instr.target? = none)
    (prepends : TypePlan.Prepends prelude middle? later?) :
    Exchanges prelude related body? later? := by
  rcases prepends with ⟨rfl, rfl⟩ | ⟨something, later, prepended, rfl⟩
  · exact exchanges
  · cases exchanges with
    | missing _ =>
      have nothing : ({} : Body).Exchanged [] related {} := by
        refine exchanged_self fun code read => ?_
        cases read
        exact List.forall_mem_nil _
      exact .prelude something (nothing.prepend sized straight prepended)
    | present exchanged => exact .present (exchanged.prepend sized straight prepended)
    | prelude something _ => exact absurd rfl something

end Body

/-! ## Redirected methods -/

open TypePlan

namespace Backing

variable {backing : Backing} {binding : ClassBinding} {source tables : Tables} {type : TypeDef}
  {method : Method} {index : Nat} {part : TypePlan × List Diagnostic}

/-- A method of a class without mistakes stays as it is, if it has nothing to do with hidden fields,
or it gets a new body. -/
theorem redirected_of_methodPlan
    (planned : backing = [] ∧ part = ({}, []) ∨ backing.methodPlan type method index = .ok part)
    (clean : Diagnostic.hasErrors part.2 = false) :
    part.1 = {} ∧ (∀ body ∈ method.body, ∀ code, body.toCode = .ok code →
      ∀ instr ∈ code.instrs, backing.touched? instr = none) ∨
    ∃ body code, method.body = some body ∧ body.toCode = .ok code ∧
      part.1 = .replaceBody index method.name ((backing.redirectCode code).toBody body.locals) ∧
      ∀ instr ∈ code.instrs, backing.touched? (backing.redirect instr) = none := by
  rcases planned with ⟨rfl, rfl⟩ | planned
  · refine .inl ⟨rfl, fun body _ code _ instr _ => ?_⟩
    rw [touched?_eq]
    cases instr.fieldToken? <;> rfl
  · unfold methodPlan at planned
    cases bodied : method.body with
    | none =>
      rw [bodied] at planned
      cases planned
      exact .inl ⟨rfl, fun body impossible => by cases impossible⟩
    | some body =>
      rw [bodied] at planned
      rcases bind_eq_ok_iff.mp planned with ⟨code, loaded, final⟩
      cases final
      have read : body.toCode = .ok code := eq_ok_of_mapError loaded
      have fine := touched?_redirect_of_findings clean
      by_cases same : backing.redirectCode code = code
      · rw [if_pos same]
        refine .inl ⟨rfl, fun other found code' again instr member => ?_⟩
        cases found
        cases read.symm.trans again
        have still : code.instrs.map backing.redirect = code.instrs.map id :=
          (congrArg Code.instrs same).trans (List.map_id _).symm
        have redirected := fine instr member
        rwa [List.map_inj_left.mp still instr member] at redirected
      · rw [if_neg same]
        exact .inr ⟨body, code, rfl, read, rfl, fine⟩

/-- The edit of a method without mistakes exchanges uses of hidden fields for calls. -/
theorem Serves.exchanges_of_methodPlan (serves : backing.Serves source tables type binding)
    (planned : backing = [] ∧ part = ({}, []) ∨ backing.methodPlan type method index = .ok part)
    (clean : Diagnostic.hasErrors part.2 = false) :
    ∃ body?, part.1.Gives index body? ∧
      Body.Exchanges [] (binding.Redirects source tables type) method.body
        (body?.or method.body) := by
  rcases redirected_of_methodPlan planned clean with
    ⟨nothing, untouched⟩ | ⟨body, code, bodied, read, replaced, fine⟩
  · rw [nothing]
    refine ⟨none, gives_empty, Body.exchanges_self fun body bodied code read instr member => ?_⟩
    exact .other fun token uses => serves.knows.not_of_touched?
      (untouched _ bodied _ read _ member) uses
  · rw [replaced, bodied]
    have gives : (replaceBody index method.name
        ((backing.redirectCode code).toBody body.locals)).Gives index _ :=
      gives_replaceBody index _ _
    rw [if_pos rfl] at gives
    exact ⟨_, gives, .present (Body.exchanged_replaceAll read backing.size_redirect
      backing.target?_redirect fun instr member => serves.redirects (fine instr member))⟩

end Backing

/-! ## New names -/

namespace ClassBinding

variable {binding : ClassBinding} {type : TypeDef} {method : Method} {index : Nat}

/-- The method with the code of the one at an index.  That of an exposed function goes by another
name and has no annotations. -/
def implementation (binding : ClassBinding) (index : Nat) (method : Method) : Method :=
  if binding.functions.any (·.method == index) then
    { method with name := Naming.implementation method.name, attributes := [] }
  else
    method

/-- The method with an index is the first one that initializes the class once exposed functions have
made room. -/
structure Initializes (binding : ClassBinding) (type : TypeDef) (index : Nat) : Prop where
  here : ∃ method, type.methods[index]? = some method ∧
    (binding.implementation index method).isTypeInitializer = true
  first : ∀ earlier < index, ∀ method, type.methods[earlier]? = some method →
    (binding.implementation earlier method).isTypeInitializer = false

/-- New names are given to exposed functions, and each of them is called like its method. -/
theorem renamed_eq_implementation (checked : TypeBinding.Checked type (.ofClass binding))
    (here : type.methods[index]? = some method) :
    renamed index (binding.functions.map fun function =>
      (function.method, Naming.implementation function.name)) method =
        binding.implementation index method := by
  unfold implementation
  split
  · next exposed =>
    rcases List.any_eq_true.mp exposed with ⟨function, member, same⟩
    rw [beq_iff_eq] at same
    refine renamed_of_mem (List.forall_mem_map.mpr fun other listed found => ?_)
      ⟨_, List.mem_map_of_mem member, same⟩ method
    rcases (checked.2 other listed).1 with ⟨declared, there, named⟩
    change other.method = index at found
    rw [found] at there
    cases here.symm.trans there
    rw [named]
  · next plain =>
    rw [List.any_eq_true] at plain
    refine renamed_of_ne (List.forall_mem_map.mpr fun function member same => ?_) method
    exact plain ⟨function, member, beq_iff_eq.mpr same⟩

theorem initializes_iff {plan : TypePlan} (checked : TypeBinding.Checked type (.ofClass binding))
    (renames : plan.renames = binding.functions.map fun function =>
      (function.method, Naming.implementation function.name)) :
    plan.Initializes type index ↔ binding.Initializes type index := by
  have same : ∀ {place : Nat} {method : Method}, type.methods[place]? = some method →
      renamed place plan.renames method = binding.implementation place method := by
    intro place method here
    rw [renames]
    exact renamed_eq_implementation checked here
  constructor
  · rintro ⟨⟨method, here, initializes⟩, first⟩
    refine ⟨⟨method, here, same here ▸ initializes⟩, fun earlier before other there => ?_⟩
    rw [← same there]
    exact first earlier before other there
  · rintro ⟨⟨method, here, initializes⟩, first⟩
    refine ⟨⟨method, here, (same here).symm ▸ initializes⟩, fun earlier before other there => ?_⟩
    rw [same there]
    exact first earlier before other there

end ClassBinding

/-! ## Methods of an edited class -/

/-- The edited class has the method with its uses of hidden fields redirected, behind a prelude. -/
def ClassBinding.Keeps (binding : ClassBinding) (source tables : Tables) (type now : TypeDef)
    (prelude : Fragment) (index : Nat) (method : Method) : Prop :=
  ∃ later?, { binding.implementation index method with body := later? } ∈ now.methods ∧
    Body.Exchanges prelude (binding.Redirects source tables type) method.body later?

theorem ClassBinding.body_implementation (binding : ClassBinding) (index : Nat) (method : Method) :
    (binding.implementation index method).body = method.body := by
  unfold implementation
  split <;> rfl

variable {config : Config} {source : Module} {type now : TypeDef} {binding : ClassBinding}
  {before after tables : Tables}

theorem ClassBinding.Planning.keeps (planning : binding.Planning config source type before after)
    (serves : planning.backing.Serves source.tables tables type binding)
    (clean : Diagnostic.hasErrors planning.diagnostics = false)
    (checked : TypeBinding.Checked type (.ofClass binding))
    (renames : planning.plan.renames = binding.functions.map fun function =>
      (function.method, Naming.implementation function.name))
    (straight : ∀ instr ∈ planning.plan.prelude, instr.target? = none)
    (applied : planning.plan.apply type = .ok now) {index : Nat} {method : Method}
    (here : type.methods[index]? = some method) (other : method.isConstructor = false)
    (accessor : ¬ binding.IsAccessor type index) :
    (¬ binding.Initializes type index → binding.Keeps source.tables tables type now [] index method) ∧
    (binding.Initializes type index →
      binding.Keeps source.tables tables type now planning.plan.prelude index method) := by
  rcases planning.method clean here other accessor with ⟨part, planned, fine, gives⟩
  rcases serves.exchanges_of_methodPlan planned fine with ⟨body?, given, exchanges⟩
  have whole := gives body? given
  have placed := mem_of_apply applied here whole.stays
  have named : renamed index planning.plan.renames method = binding.implementation index method := by
    rw [renames]
    exact renamed_eq_implementation checked here
  rw [initializes_iff checked renames, whole.body, named] at placed
  refine ⟨fun plain => ⟨_, ?_, exchanges⟩, fun initializes => ?_⟩
  · have member := placed.1 plain
    rwa [Method.withBody?, body_implementation] at member
  · rcases placed.2 initializes with ⟨later?, prepends, member⟩
    exact ⟨later?, member, exchanges.prepend (fun redirects => redirects.size_eq) straight prepends⟩

end NativeWeave
