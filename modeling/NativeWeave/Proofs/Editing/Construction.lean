import NativeWeave.Proofs.Editing.Relocation
import NativeWeave.Proofs.Marshalling.Emission
import NativeWeave.Proofs.Verification.Levels

namespace NativeWeave

/-!
# What an edited constructor does

An edited constructor runs along the paths of the original one.  Wherever the original came past an
instruction of an early store there is nothing left; hidden fields are used through accessors; and
behind the call of the base class stand the settings and what new objects need.  That is so for
every path, also for one that jumps past an early store or past the call.
-/

namespace Backing

variable {backing : Backing}

/-- What is redirected refers to a member and becomes a call. -/
theorem redirect_eq_or (backing : Backing) (instr : Instr) :
    backing.redirect instr = instr ∨
      ∃ op token called, instr = .member op token ∧ backing.redirect instr = .call called := by
  cases instr with
  | member op token =>
    cases op with
    | loadField =>
      cases found : backing.access? token with
      | none => exact .inl (by simp only [redirect, found, Option.map_none, Option.getD_none])
      | some access =>
        refine .inr ⟨_, _, access.getter, rfl, ?_⟩
        simp only [redirect, found, Option.map_some, Option.getD_some]
    | storeField =>
      cases found : (backing.access? token).bind (·.setter) with
      | none => exact .inl (by simp only [redirect, found, Option.map_none, Option.getD_none])
      | some setter =>
        refine .inr ⟨_, _, setter, rfl, ?_⟩
        simp only [redirect, found, Option.map_some, Option.getD_some]
    | _ => exact .inl rfl
  | _ => exact .inl rfl

theorem target?_redirect (backing : Backing) (instr : Instr) :
    (backing.redirect instr).target? = instr.target? := by
  rcases backing.redirect_eq_or instr with same | ⟨op, token, called, rfl, becomes⟩
  · rw [same]
  · rw [becomes]
    rfl

theorem isTerminator_redirect (backing : Backing) (instr : Instr) :
    (backing.redirect instr).isTerminator = instr.isTerminator := by
  rcases backing.redirect_eq_or instr with same | ⟨op, token, called, rfl, becomes⟩
  · rw [same]
  · rw [becomes]
    rfl

theorem redirect_mapTarget (backing : Backing) (rename : Nat → Nat) (instr : Instr) :
    backing.redirect (instr.mapTarget rename) = (backing.redirect instr).mapTarget rename := by
  cases leads : instr.target? with
  | none =>
    have same : (backing.redirect instr).target? = none :=
      (backing.target?_redirect instr).trans leads
    rw [Instr.mapTarget_eq leads, Instr.mapTarget_eq same]
  | some target =>
    cases instr with
    | jump op aim => rfl
    | _ => cases leads

end Backing

/-! ## Paths -/

/-- What is done in place of an instruction of a constructor: nothing if it belongs to an early
store, and otherwise what the instruction does with accessors for hidden fields.  Behind the call of
the base class comes what is injected there. -/
def shown (backing : Backing) (code : Code) (stores : List (Nat × UInt32)) (baseCall : Nat)
    (injected : Fragment) (index : Nat) : List Act :=
  if InStore stores index then
    []
  else
    (backing.redirectCode code).acts [index]
      ++ if index = baseCall then injected.map Instr.act else []

/-- Away from the call of the base class, what is done is what the instructions do that are left. -/
theorem flatMap_shown {backing : Backing} {code : Code} {stores : List (Nat × UInt32)}
    {baseCall : Nat} {injected : Fragment} {path : List Nat}
    (away : ∀ index ∈ path, index ≠ baseCall) :
    path.flatMap (shown backing code stores baseCall injected) =
      (backing.redirectCode code).acts (path.filter (¬ InStore stores ·)) := by
  induction path with
  | nil => rfl
  | cons index more ih =>
    rw [List.forall_mem_cons] at away
    rw [List.flatMap_cons, ih away.2, shown, if_neg away.1, List.append_nil]
    by_cases goes : InStore stores index
    · rw [if_pos goes, List.filter_cons_of_neg (by simpa using goes), List.nil_append]
    · rw [if_neg goes, List.filter_cons_of_pos (by simpa using goes), ← Code.acts_append]
      rfl

/-- Where the instructions of a constructor are found after an edit.  `place` also says where jumps to
them lead: past what is injected, for the instruction behind the call of the base class. -/
structure Rearranged (backing : Backing) (code later : Code) (stores : List (Nat × UInt32))
    (baseCall : Nat) (injected : Fragment) (place : Nat → Nat) : Prop where
  start : place 0 = 0
  gone : ∀ {index}, InStore stores index → place (index + 1) = place index
  kept : ∀ {index}, ¬ InStore stores index → index ≠ baseCall → place (index + 1) = place index + 1
  called : place (baseCall + 1) = place baseCall + 1 + injected.length
  there : ∀ {index}, ¬ InStore stores index → later.instrs[place index]? =
    code.instrs[index]?.map fun instr => (backing.redirect instr).mapTarget place
  put : ∀ offset < injected.length,
    later.instrs[place baseCall + 1 + offset]? = injected[offset]?

/-- What an edit relies on: the early stores and the call of the base class always go on to the next
instruction, and so does everything that is injected. -/
structure Movable (code : Code) (stores : List (Nat × UInt32)) (baseCall : Nat)
    (injected : Fragment) : Prop where
  early : ∀ {index instr}, InStore stores index → code.instrs[index]? = some instr →
    instr.Straight
  call : ¬ InStore stores baseCall ∧ ∃ instr, code.instrs[baseCall]? = some instr ∧ instr.Straight
  added : ∀ instr ∈ injected, instr.Straight

namespace Rearranged

variable {backing : Backing} {code later : Code} {stores : List (Nat × UInt32)} {baseCall : Nat}
  {injected : Fragment} {place : Nat → Nat}

/-- The places that stand for an instruction after an edit. -/
def standsFor (stores : List (Nat × UInt32)) (baseCall : Nat) (injected : Fragment)
    (place : Nat → Nat) (index : Nat) : List Nat :=
  if InStore stores index then
    []
  else
    place index ::
      if index = baseCall then List.range' (place baseCall + 1) injected.length else []

/-- Each step of the original constructor is some steps of the edited one. -/
theorem passes (rearranged : Rearranged backing code later stores baseCall injected place)
    (movable : Movable code stores baseCall injected) {index next : Nat}
    (flows : Frame.Flows code.instrs index next) :
    Frame.Passes later.instrs (place index) (standsFor stores baseCall injected place index)
      (place next) := by
  unfold standsFor
  by_cases goes : InStore stores index
  · rw [if_pos goes]
    have same : next = index + 1 := by
      cases flows with
      | next _ _ => rfl
      | jump here leads =>
        have straight := movable.early goes here
        cases straight.leadsNowhere.symm.trans leads
    rw [same, rearranged.gone goes]
    exact .here
  · rw [if_neg goes]
    by_cases calls : index = baseCall
    · subst calls
      rw [if_pos rfl]
      rcases movable.call with ⟨_, instr, here, straight⟩
      rw [Frame.Flows.eq_next here straight flows, rearranged.called]
      have there := rearranged.there goes
      rw [here] at there
      refine .step (.next there ?_) (Frame.passes_range' fun offset inside => ?_)
      · rw [Instruction.isTerminator_mapTarget, backing.isTerminator_redirect]
        exact straight.goesOn
      · refine ⟨injected[offset], ?_, movable.added _ (List.getElem_mem inside)⟩
        rw [rearranged.put offset inside]
        exact List.getElem?_eq_getElem inside
    · rw [if_neg calls]
      refine .step ?_ .here
      have there := rearranged.there goes
      cases flows with
      | next here goesOn =>
        rw [here] at there
        rw [rearranged.kept goes calls]
        refine .next there ?_
        rw [Instruction.isTerminator_mapTarget, backing.isTerminator_redirect]
        exact goesOn
      | jump here leads =>
        rw [here] at there
        refine .jump there ?_
        rw [Instruction.target?_mapTarget, backing.target?_redirect, leads]
        rfl

/-- What is done at the places that stand for an instruction. -/
theorem acts_standsFor (rearranged : Rearranged backing code later stores baseCall injected place)
    (index : Nat) : later.acts (standsFor stores baseCall injected place index) =
      shown backing code stores baseCall injected index := by
  unfold standsFor shown
  by_cases goes : InStore stores index
  · rw [if_pos goes, if_pos goes]
    rfl
  · rw [if_neg goes, if_neg goes, ← List.singleton_append, Code.acts_append]
    congr 1
    · change [place index].filterMap (fun index => later.instrs[index]?.map Instr.act) =
        [index].filterMap fun index => (code.instrs.map backing.redirect)[index]?.map Instr.act
      rw [List.filterMap_cons, List.filterMap_cons, rearranged.there goes, List.getElem?_map,
        Option.map_map, Option.map_map]
      have same : (Instr.act ∘ fun instr => (backing.redirect instr).mapTarget place) =
          Instr.act ∘ backing.redirect := funext fun instr => Instr.act_mapTarget place _
      rw [same]
      rfl
    · split
      · exact Code.acts_range' rearranged.put
      · rfl

/-- Every run of the original constructor becomes a run of the edited one. -/
theorem runs (rearranged : Rearranged backing code later stores baseCall injected place)
    (movable : Movable code stores baseCall injected) {path : List Nat} (runs : code.Runs path) :
    later.Runs (path.flatMap (standsFor stores baseCall injected place)) := by
  rcases runs with ⟨front, stop, rfl, passes, returns⟩
  have stays : ¬ InStore stores stop := by
    intro goes
    cases (movable.early goes returns).goesOn
  have other : stop ≠ baseCall := by
    rintro rfl
    rcases movable.call with ⟨_, instr, here, straight⟩
    cases returns.symm.trans here
    cases straight.goesOn
  refine ⟨front.flatMap (standsFor stores baseCall injected place), place stop, ?_, ?_, ?_⟩
  · rw [List.flatMap_append, List.flatMap_singleton]
    congr 1
    unfold standsFor
    rw [if_neg stays, if_neg other]
  · have moved := passes.follow (rearranged.passes movable)
    rwa [rearranged.start] at moved
  · rw [rearranged.there stays, returns]
    rfl

end Rearranged

/-- Control runs through the fragment from its start to its end. -/
abbrev Fragment.Straight (fragment : Fragment) : Prop :=
  ∀ instr ∈ fragment, Instr.Straight instr

/-! ## The edit -/

namespace ClassSite.Relocated

variable {backing : Backing} {code later : Code} {stores : List (Nat × UInt32)}
  {relocation : Relocation} {baseCall : Nat} {injected : Fragment}

/-- An early store consists of straight instructions. -/
theorem straight (relocated : Relocated backing code stores relocation)
    (stand : ∀ store ∈ stores, store ∈ backingStores backing code) {index : Nat}
    {instr : Instr} (goes : InStore stores index) (here : code.instrs[index]? = some instr) :
    instr.Straight := by
  rcases relocated.of_inStore stand goes here with rfl | constant | ⟨token, setter, rfl, _⟩
  · exact Instr.straight_loadArg 0
  · exact Instr.straight_of_isConstant constant
  · exact Instr.straight_storeField token

theorem straight_settings (relocated : Relocated backing code stores relocation) :
    ∀ setting ∈ relocation.settings, Fragment.Straight setting := by
  intro setting member
  have given : some setting ∈ stores.map (backing.setting? code) := by
    rw [relocated.settings]
    exact List.mem_map_of_mem member
  rcases List.mem_map.mp given with ⟨store, _, found⟩
  rcases Backing.setting?_eq_some found with ⟨value, setter, rfl, stored, _⟩
  have constant := (storedConstant?_eq_some_iff.mp stored).2.2.2
  exact List.forall_mem_cons.mpr ⟨Instr.straight_loadArg 0, List.forall_mem_cons.mpr
    ⟨Instr.straight_of_isConstant constant, List.forall_mem_singleton.mpr
      (Instr.straight_call setter)⟩⟩

theorem rearranged
    (relocated : Relocated backing code (earlyStores backing code baseCall) relocation)
    (edited : (backing.redirectCode relocation.code).insert?
      (baseCall - 3 * relocation.settings.length + 1) injected = some later) :
    ∃ place, Rearranged backing code later (earlyStores backing code baseCall) baseCall injected
      place := by
  rcases relocated.moved with ⟨before, drops, _, behind⟩
  have call : baseCall - 3 * relocation.settings.length = before baseCall := by
    have := behind baseCall fun store member => (mem_earlyStores member).2
    rw [relocated.length_settings]
    omega
  rw [call] at edited
  rcases Code.getElem?_of_insert? edited with ⟨kept, put⟩
  have stays : ¬ InStore (earlyStores backing code baseCall) baseCall :=
    not_inStore_earlyStores (Nat.le_refl _)
  have still : Code.placeBehind (before baseCall + 1) injected.length (before baseCall) =
      before baseCall := if_neg (by omega)
  refine ⟨Code.placeBehind (before baseCall + 1) injected.length ∘ before, ?_, ?_, ?_, ?_, ?_, ?_⟩
  · change Code.placeBehind _ _ (before 0) = 0
    rw [drops.start]
    exact if_neg (by omega)
  · intro index goes
    exact congrArg (Code.placeBehind (before baseCall + 1) injected.length) (drops.gone goes)
  · intro index other different
    have apart : before index ≠ before baseCall := by
      rcases Nat.lt_or_gt_of_ne different with order | order
      · exact Nat.ne_of_lt (drops.lt_of_lt other order)
      · exact Nat.ne_of_gt (drops.lt_of_lt stays order)
    change Code.placeBehind _ _ (before (index + 1)) = Code.placeBehind _ _ (before index) + 1
    rw [drops.kept other]
    unfold Code.placeBehind
    split <;> split <;> omega
  · change Code.placeBehind _ _ (before (baseCall + 1)) =
      Code.placeBehind _ _ (before baseCall) + 1 + injected.length
    rw [still, drops.kept stays]
    exact if_pos (Nat.le_refl _)
  · intro index other
    change later.instrs[Code.placeBehind _ _ (before index)]? = _
    rw [kept]
    change (relocation.code.instrs.map backing.redirect)[_]?.map _ = _
    rw [List.getElem?_map, drops.there other, Option.map_map, Option.map_map]
    congr 1
    funext instr
    change (backing.redirect (instr.mapTarget before)).mapTarget _ = _
    rw [backing.redirect_mapTarget]
    exact Instruction.mapTarget_mapTarget before _ _
  · change ∀ offset < injected.length,
      later.instrs[Code.placeBehind _ _ (before baseCall) + 1 + offset]? = _
    rw [still]
    exact put

theorem targetsInside
    (relocated : Relocated backing code (earlyStores backing code baseCall) relocation)
    (within : baseCall < code.size)
    (straight : ∀ instr ∈ injected, instr.Straight) {place : Nat}
    (edited : (backing.redirectCode relocation.code).insert? place injected = some later)
    (inside : code.TargetsInside) : later.TargetsInside := by
  rcases relocated.moved with ⟨before, drops, _, _⟩
  refine Code.targetsInside_of_insert? edited straight fun instr member found leads => ?_
  rcases List.mem_map.mp member with ⟨original, old, rfl⟩
  rw [backing.target?_redirect] at leads
  have near := drops.targetsInside (fun index ending => not_inStore_earlyStores ?_) inside original old
    found leads
  · change found < (relocation.code.instrs.map _).length
    rwa [List.length_map]
  · change baseCall < code.instrs.length at within
    omega

/-- What stands in the edited code comes from the original, redirected, or was injected. -/
theorem exists_origin
    (relocated : Relocated backing code (earlyStores backing code baseCall) relocation)
    (within : baseCall < code.size) {place : Nat} {instr : Instr}
    (edited : (backing.redirectCode relocation.code).insert? place injected = some later)
    (member : instr ∈ later.instrs) :
    (∃ original ∈ code.instrs, ∃ rename, instr = (backing.redirect original).mapTarget rename) ∨
      instr ∈ injected := by
  rcases relocated.moved with ⟨before, drops, _, _⟩
  refine (Code.mem_of_insert? edited member).imp_left ?_
  rintro ⟨redirected, listed, rfl⟩
  rcases List.mem_map.mp listed with ⟨left, old, rfl⟩
  rcases drops.exists_of_mem (not_inStore_earlyStores (Nat.le_of_lt within)) old with
    ⟨original, first, rfl⟩
  refine ⟨original, first, Code.placeBehind place injected.length ∘ before, ?_⟩
  rw [backing.redirect_mapTarget]
  exact Instruction.mapTarget_mapTarget _ _ _

end ClassSite.Relocated

/-! ## What new objects need -/

open Emit

theorem straight_address (token offset : UInt32) :
    Fragment.Straight (⟨.thisField token, some offset⟩ : NativeAddress).push := by
  change Fragment.Straight [.loadArg 0, .loadField token, .loadStatic offset, .plain .toNative,
    .plain .add]
  simp only [Fragment.Straight, List.forall_mem_cons]
  exact ⟨⟨rfl, rfl⟩, ⟨rfl, rfl⟩, ⟨rfl, rfl⟩, ⟨rfl, rfl⟩, ⟨rfl, rfl⟩, List.forall_mem_nil _⟩

theorem yieldsStraight_callStatic (owner : Signature) (name : String)
    (parameters : List Signature) (result : Signature) :
    (callStatic owner name parameters result).Yields Fragment.Straight := by
  unfold callStatic call
  exact .after fun token => .pure (List.forall_mem_singleton.mpr ⟨rfl, rfl⟩)

theorem yieldsStraight_loadString (text : String) :
    (loadString text).Yields Fragment.Straight := by
  unfold loadString
  exact .after fun index => .pure (List.forall_mem_singleton.mpr ⟨rfl, rfl⟩)

/-- Nothing jumps in the code for an effect. -/
theorem ClassSite.yieldsStraight_emitEffect (site : ClassSite) (effect : ConstructionEffect) :
    (site.emitEffect effect).Yields Fragment.Straight := by
  unfold emitEffect
  have native : (thisNative site.config).Yields fun base => ∃ token, base = .thisField token := by
    unfold thisNative
    exact .after fun token => .pure ⟨token, rfl⟩
  refine .bind native fun base found => ?_
  rcases found with ⟨token, rfl⟩
  cases effect with
  | defaultInit category offset tokens =>
    change (Category.defaultInit _ _ _).Yields _
    unfold Category.defaultInit
    split
    · refine .bind (yieldsStraight_callStatic _ _ _ _) fun called straight => .pure ?_
      exact List.forall_mem_append.mpr ⟨straight_address token offset, straight⟩
    · exact .pure (List.forall_mem_nil _)
  | subobject target nativeName offset =>
    change (Emit.subobject _ _ _ _).Yields _
    unfold Emit.subobject
    refine .after fun create => .after fun classPtr => ?_
    refine .bind (yieldsStraight_loadString nativeName) fun name first => ?_
    refine .bind (yieldsStraight_callStatic _ _ _ _) fun write second => .pure ?_
    have calls : Fragment.Straight [.loadStatic classPtr, .call create] :=
      List.forall_mem_cons.mpr ⟨⟨rfl, rfl⟩, List.forall_mem_singleton.mpr ⟨rfl, rfl⟩⟩
    have receiver : Fragment.Straight (.loadArg 0 :: name) :=
      List.forall_mem_cons.mpr ⟨Instr.straight_loadArg 0, first⟩
    have front := List.forall_mem_append.mpr ⟨straight_address token offset, receiver⟩
    exact List.forall_mem_append.mpr ⟨List.forall_mem_append.mpr ⟨front, calls⟩, second⟩

/-! ## Constructors without mistakes -/

namespace Backing

variable {backing : Backing} {type : TypeDef} {method : Method} {code : Code}

theorem touched?_mapTarget (backing : Backing) (rename : Nat → Nat) (instr : Instr) :
    backing.touched? (instr.mapTarget rename) = backing.touched? instr := by
  cases instr <;> rfl

/-- Findings are about uses of hidden fields that no accessor stands in for. -/
theorem touched?_redirect {instr : Instr} {index : Nat}
    (fine : backing.finding? type method code instr index = none) :
    backing.touched? (backing.redirect instr) = none := by
  cases instr with
  | member op token =>
    cases op with
    | loadField =>
      cases found : backing.access? token with
      | none => simp only [redirect, found, Option.map_none, Option.getD_none, touched?]
      | some access => simp only [redirect, found, Option.map_some, Option.getD_some]; rfl
    | storeField =>
      cases found : backing.access? token with
      | none => simp only [redirect, found, Option.bind_none, Option.map_none, Option.getD_none,
          touched?]
      | some access =>
        cases declared : access.setter with
        | none => simp [finding?, found, declared] at fine
        | some setter =>
          simp only [redirect, found, Option.bind_some, declared, Option.map_some,
            Option.getD_some]
          rfl
    | loadFieldAddress =>
      cases found : backing.access? token with
      | none => exact found
      | some access => simp [finding?, found] at fine
    | _ => rfl
  | _ => rfl

theorem isError_of_finding? {instr : Instr} {index : Nat} {finding : Diagnostic}
    (found : backing.finding? type method code instr index = some finding) :
    finding.isError = true := by
  unfold finding? at found
  dsimp only at found
  split at found
  · rcases Option.map_eq_some_iff.mp found with ⟨access, _, rfl⟩
    rfl
  · rcases Option.map_eq_some_iff.mp found with ⟨access, _, rfl⟩
    rfl
  · cases found

/-- Where there are no mistakes, accessors stand in for all uses of hidden fields. -/
theorem touched?_redirect_of_findings
    (clean : Diagnostic.hasErrors (backing.findings type method code) = false) :
    ∀ instr ∈ code.instrs, backing.touched? (backing.redirect instr) = none := by
  intro instr member
  rcases List.mem_iff_getElem?.mp member with ⟨index, here⟩
  cases fine : backing.finding? type method code instr index with
  | none => exact touched?_redirect fine
  | some finding =>
    have listed : finding ∈ backing.findings type method code :=
      List.mem_filterMap.mpr ⟨(instr, index), List.mk_mem_zipIdx_iff_getElem?.mpr here, fine⟩
    have mistaken : Diagnostic.hasErrors (backing.findings type method code) = true :=
      List.any_eq_true.mpr ⟨finding, listed, isError_of_finding? fine⟩
    cases clean.symm.trans mistaken

end Backing

/-- What the edit of a constructor comes to.  `settings` are those of its early stores, and `effects`
are what new objects need. -/
structure Edits (backing : Backing) (code later : Code) (baseCall : Nat)
    (settings effects : List Fragment) : Prop where
  early : (ClassSite.earlyStores backing code baseCall).map (backing.setting? code) =
    settings.map some
  /-- Hidden fields are used through their accessors only. -/
  redirected : ∀ instr ∈ code.instrs, backing.touched? (backing.redirect instr) = none
  origin : ∀ instr ∈ later.instrs,
    (∃ original ∈ code.instrs, ∃ rename, instr = (backing.redirect original).mapTarget rename) ∨
      instr ∈ settings.flatten ++ effects.flatten
  runs : ∀ path, code.Runs path → ∃ other, later.Runs other ∧ later.acts other = path.flatMap
    (shown backing code (ClassSite.earlyStores backing code baseCall) baseCall
      (settings.flatten ++ effects.flatten))
  /-- Where control goes straight to the call of the base class and never comes back, everything keeps
  its order: first what stands in front of the call without the early stores, then the call, then
  their settings, then what new objects need, and then what comes after the call. -/
  straight : ∀ rest, code.Runs (List.range (baseCall + 1) ++ rest) →
    (∀ index ∈ rest, baseCall < index) → ∃ other, later.Runs other ∧ later.acts other =
      (backing.redirectCode code).acts ((List.range baseCall).filter
        (¬ InStore (ClassSite.earlyStores backing code baseCall) ·) ++ [baseCall])
      ++ settings.flatten.map Instr.act ++ effects.flatten.map Instr.act
      ++ (backing.redirectCode code).acts rest

/-- What is done along a path that goes straight to the call of the base class. -/
theorem flatMap_shown_straight {backing : Backing} {code : Code} {baseCall : Nat}
    {injected : Fragment} {rest : List Nat} (onward : ∀ index ∈ rest, baseCall < index) :
    (List.range (baseCall + 1) ++ rest).flatMap
        (shown backing code (ClassSite.earlyStores backing code baseCall) baseCall injected) =
      (backing.redirectCode code).acts ((List.range baseCall).filter
        (¬ InStore (ClassSite.earlyStores backing code baseCall) ·) ++ [baseCall])
      ++ injected.map Instr.act ++ (backing.redirectCode code).acts rest := by
  have kept : rest.filter (¬ InStore (ClassSite.earlyStores backing code baseCall) ·) = rest :=
    List.filter_eq_self.mpr fun index member => decide_eq_true
      (ClassSite.not_inStore_earlyStores (Nat.le_of_lt (onward index member)))
  rw [List.flatMap_append, flatMap_shown fun index member => Nat.ne_of_gt (onward index member),
    kept, List.range_succ, List.flatMap_append, flatMap_shown fun index member =>
      Nat.ne_of_lt (List.mem_range.mp member), List.flatMap_singleton, shown,
    if_neg (ClassSite.not_inStore_earlyStores (Nat.le_refl _)), if_pos rfl, Code.acts_append]
  simp only [List.append_assoc]

theorem Edits.congr {backing : Backing} {code later other : Code} {baseCall : Nat}
    {settings effects : List Fragment} (edits : Edits backing code later baseCall settings effects)
    (same : later.instrs = other.instrs) : Edits backing code other baseCall settings effects := by
  have runs : other.Runs = later.Runs := by
    unfold Code.Runs
    rw [same]
  have acts : other.acts = later.acts := by
    unfold Code.acts
    rw [same]
  refine ⟨edits.early, edits.redirected, ?_, ?_, ?_⟩
  · rw [← same]
    exact edits.origin
  · rw [runs, acts]
    exact edits.runs
  · rw [runs, acts]
    exact edits.straight

namespace ClassSite

variable {site : ClassSite} {backing : Backing} {effects : List ConstructionEffect}
  {method : Method} {index : Nat} {locals : List Signature} {code : Code} {baseCall : Nat}
  {before after : Tables} {planned : TypePlan × List Diagnostic}

theorem Relocated.touched?_redirect {stores : List (Nat × UInt32)} {relocation : Relocation}
    (relocated : Relocated backing code stores relocation)
    (stand : ∀ store ∈ stores, store ∈ backingStores backing code)
    (clean : ∀ instr ∈ relocation.code.instrs, backing.touched? (backing.redirect instr) = none) :
    ∀ instr ∈ code.instrs, backing.touched? (backing.redirect instr) = none := by
  intro instr member
  rcases List.mem_iff_getElem?.mp member with ⟨index, here⟩
  by_cases goes : InStore stores index
  · rcases relocated.of_inStore stand goes here with rfl | constant | ⟨token, setter, rfl, found⟩
    · rfl
    · cases instr with
      | member op token => cases constant
      | _ => rfl
    · change backing.touched? ((((backing.access? token).bind (·.setter)).map Instr.call).getD
        _) = none
      rw [found]
      rfl
  · rcases relocated.moved with ⟨place, drops, _, _⟩
    have there := drops.there goes
    rw [here] at there
    have fine := clean _ (List.mem_of_getElem? there)
    rwa [backing.redirect_mapTarget, backing.touched?_mapTarget] at fine

/-- The call of the base class is a call of one of its constructors or of one of the class. -/
theorem baseCall?_eq_some (called : site.baseCall? code = some baseCall) :
    ∃ token member, code.instrs[baseCall]? = some (.call token) ∧
      site.source.tables.member? token = some member ∧ member.isConstructor = true ∧
      (some member.owner = site.type.base ∨ member.owner = site.owner) := by
  unfold baseCall? at called
  rcases List.findIdx?_eq_some_iff_getElem.mp called with ⟨within, accepted, _⟩
  have here := List.getElem?_eq_getElem within
  split at accepted
  · next token same =>
    rcases (Option.any_eq_true _ _).mp accepted with ⟨member, found, fits⟩
    rw [Bool.and_eq_true, Bool.or_eq_true, beq_iff_eq, beq_iff_eq] at fits
    exact ⟨token, member, here.trans (congrArg some same), found, fits⟩
  · cases accepted

/-- The plan of a constructor without mistakes is its edit. -/
theorem edits_of_planConstruction
    (run : site.planConstruction backing effects method index locals code baseCall before =
      .ok (planned, after)) (clean : Diagnostic.hasErrors planned.2 = false)
    (called : site.baseCall? code = some baseCall) (inside : code.TargetsInside) :
    ∃ later settings emitted, (effects.mapM site.emitEffect) before = .ok (emitted, after) ∧
      planned.1 = .replaceBody index method.name (later.toBody locals) ∧ later.TargetsInside ∧
      Edits backing code later baseCall settings emitted := by
  unfold planConstruction at run
  rcases bind_eq_ok_iff.mp run with ⟨⟨relocation, middle⟩, moved, run⟩
  rcases bind_eq_ok_iff.mp moved with ⟨_, relocated, final⟩
  cases final
  have stand : ∀ store ∈ earlyStores backing code baseCall, store ∈ backingStores backing code :=
    fun store member => (mem_earlyStores member).1
  rcases relocated_of_relocateAll relocated (pairwise_earlyStores backing code baseCall) stand with
    ⟨mistakes, complete⟩
  dsimp only at run
  split at run
  · next some =>
    -- The findings about early stores are all that is reported, and each of them is a mistake.
    cases run
    cases given : relocation.diagnostics with
    | nil =>
      rw [given] at some
      cases some
    | cons finding more =>
      have mistaken : Diagnostic.hasErrors relocation.diagnostics = true :=
        List.any_eq_true.mpr ⟨finding, given ▸ List.mem_cons_self,
          mistakes finding (given ▸ List.mem_cons_self)⟩
      cases clean.symm.trans mistaken
  · next none =>
    have fine : relocation.diagnostics = [] := by
      cases given : relocation.diagnostics with
      | nil => rfl
      | cons finding more => exact (none (by rw [given]; rfl)).elim
    have relocated := complete fine
    split at run
    · have impossible : (Except.error .outOfRange : Weave _) = .ok (planned, after) := run
      cases impossible
    · rcases bind_eq_ok_iff.mp run with ⟨⟨emitted, last⟩, emission, run⟩
      dsimp only at run
      have straight : ∀ fragment ∈ emitted, Fragment.Straight fragment :=
        Yields.mapM (fun effect _ => site.yieldsStraight_emitEffect effect) _ _ _ emission
      have added : Fragment.Straight emitted.flatten := List.forall_mem_flatten.mpr straight
      rw [Fragment.concat_eq_flatten fun instr member => (added instr member).leadsNowhere] at run
      cases edited : (backing.redirectCode relocation.code).insert?
          (baseCall - 3 * relocation.settings.length + 1)
          (relocation.settings.flatten ++ emitted.flatten) with
      | none =>
        rw [edited] at run
        cases run
      | some later =>
        rw [edited] at run
        cases run
        rcases baseCall?_eq_some called with ⟨token, _, call, _⟩
        have within : baseCall < code.size := (List.getElem?_eq_some_iff.mp call).1
        have injected : Fragment.Straight (relocation.settings.flatten ++ emitted.flatten) :=
          List.forall_mem_append.mpr
            ⟨List.forall_mem_flatten.mpr relocated.straight_settings, added⟩
        have movable : Movable code (earlyStores backing code baseCall) baseCall
            (relocation.settings.flatten ++ emitted.flatten) :=
          ⟨relocated.straight stand, ⟨not_inStore_earlyStores (Nat.le_refl _), _, call,
            Instr.straight_call token⟩, injected⟩
        rcases relocated.rearranged edited with ⟨place, rearranged⟩
        have runs : ∀ path, code.Runs path → ∃ other, later.Runs other ∧ later.acts other =
            path.flatMap (shown backing code (earlyStores backing code baseCall) baseCall
              (relocation.settings.flatten ++ emitted.flatten)) := by
          intro path runs
          refine ⟨_, rearranged.runs movable runs, ?_⟩
          rw [Code.acts_flatMap]
          simp only [rearranged.acts_standsFor]
        refine ⟨later, relocation.settings, emitted, emission, rfl,
          relocated.targetsInside within injected edited inside, relocated.settings, ?_, ?_, ?_, ?_⟩
        · exact relocated.touched?_redirect stand (Backing.touched?_redirect_of_findings clean)
        · exact fun instr member => relocated.exists_origin within edited member
        · exact runs
        · intro rest straight onward
          rcases runs _ straight with ⟨other, found, done⟩
          refine ⟨other, found, ?_⟩
          rw [done, flatMap_shown_straight onward, List.map_append]
          simp only [List.append_assoc]

/-- A constructor of a class without mistakes stays as it is, if it has nothing to do with hidden
fields and nothing is injected, or it gets a new body. -/
theorem constructed_of_planConstructor {body : Body}
    (run : site.planConstructor backing effects index method before = .ok (planned, after))
    (clean : Diagnostic.hasErrors planned.2 = false) (bodied : method.body = some body) :
    ∃ code wanted, body.toCode = .ok code ∧
      wanted = wantedEffects effects (backingStores backing code)
        (site.binding.construction == some index) ∧
      (planned.1 = {} ∧ wanted = [] ∧ (∀ instr ∈ code.instrs, backing.touched? instr = none) ∨
      ∃ baseCall later settings emitted, site.baseCall? code = some baseCall ∧
        (wanted.mapM site.emitEffect) before = .ok (emitted, after) ∧
        planned.1 = .replaceBody index method.name (later.toBody body.locals) ∧
        later.TargetsInside ∧ Edits backing code later baseCall settings emitted) := by
  unfold planConstructor at run
  rw [bodied] at run
  rcases bind_eq_ok_iff.mp run with ⟨⟨code, middle⟩, loaded, run⟩
  rcases bind_eq_ok_iff.mp loaded with ⟨_, decoded, final⟩
  cases final
  have read : body.toCode = .ok code := eq_ok_of_mapError decoded
  rcases bind_eq_ok_iff.mp read with ⟨stored, bytes, final⟩
  have inside : code.TargetsInside := by
    cases final
    exact (Code.storable_of_decode bytes).targetsInside
  refine ⟨code, _, read, rfl, ?_⟩
  dsimp only at run
  split at run
  · next idle =>
    cases run
    rw [Bool.and_eq_true, List.isEmpty_iff, Bool.not_eq_true', List.any_eq_false] at idle
    refine .inl ⟨rfl, idle.1, fun instr member => ?_⟩
    exact Option.not_isSome_iff_eq_none.mp (idle.2 instr member)
  · cases called : site.baseCall? code with
    | none =>
      rw [called] at run
      cases run
      cases clean
    | some baseCall =>
      rw [called] at run
      rcases edits_of_planConstruction run clean called inside with
        ⟨later, settings, emitted, emission, made, within, edits⟩
      exact .inr ⟨baseCall, later, settings, emitted, rfl, emission, made, within, edits⟩

end ClassSite

end NativeWeave
