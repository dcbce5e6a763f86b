import Mathlib.Data.List.Nodup
import Mathlib.Data.List.Perm.Basic
import RecordService.Http.Message
import RecordService.Http.Options
import RecordService.Proofs.Record.Texts

/-!
# The order of query options

The parameters of a query come from a table, so they may be visited in any order. Where none of them
is at fault this makes no difference: each sets a field of its own. Where one is at fault there are
no options in any order, but which fault is told is a matter of order, as the first one that is met
decides. So the outcome is the same in every order exactly if at most one parameter is at fault
(`RecordService.Http.ListOptions.read_in_any_order`).

* `RecordService.Http.ListOptions.Fault`: the error of a parameter that cannot be an option.
* `RecordService.Http.ListOptions.assign`: the field that any other parameter sets.
* `RecordService.Http.ListOptions.visit_eq_ok_iff`: what one more parameter does.
* `RecordService.Http.ListOptions.read_of_faultless`, `RecordService.Http.ListOptions.read_of_fault`:
  the outcome in one order.
* `RecordService.Http.ListOptions.read_eq_ok_iff_of_perm`: options do not depend on the order.
-/

namespace RecordService.Http.ListOptions

/-- What is wrong with a parameter that cannot be an option. -/
inductive Fault : String × String → RequestError → Prop
  /-- A bound is not an integer. -/
  | bound {name raw : String} : name = "$top" ∨ name = "$skip" →
      Text.readInteger? (Text.trim raw) = none →
      Fault (name, raw) (.badRequest s!"{name} must be an integer (got '{raw}')")
  /-- The choice of counting is no truth value. -/
  | count {raw : String} : raw ≠ "true" → raw ≠ "false" →
      Fault ("$count", raw) (.badRequest s!"$count must be true or false (got '{raw}')")
  /-- There is no such option. -/
  | keyword {name raw : String} : isKeyword name →
      name ∉ ["$top", "$skip", "$filter", "$orderby", "$count"] →
      Fault (name, raw) (unknownKeyword name)

/-- The options with the field set that a parameter without a fault is for. -/
def assign (o : ListOptions) (p : String × String) : ListOptions where
  top := if p.1 = "$top" then Text.readInteger? (Text.trim p.2) else o.top
  skip := if p.1 = "$skip" then Text.readInteger? (Text.trim p.2) else o.skip
  filter := if p.1 = "$filter" then some p.2 else o.filter
  order := if p.1 = "$orderby" then some p.2 else o.order
  count := if p.1 = "$count" then p.2 == "true" else o.count

variable {p q : String × String} {ps qs : List (String × String)} {e e' : RequestError}
  {o o' : ListOptions}

/-! ### One parameter -/

/-- A parameter at fault fails with its fault, whatever the options are so far. -/
theorem visit_of_fault (h : Fault p e) (o : ListOptions) : o.visit p.1 p.2 = .error e := by
  cases h with
  | bound hname hraw =>
    rcases hname with rfl | rfl
    · simp [visit, integerOption, hraw, bind, Except.bind]
    · simp [visit, integerOption, hraw, bind, Except.bind]
  | count htrue hfalse => simp [visit, countOption, htrue, hfalse, bind, Except.bind]
  | keyword hkeyword hname =>
    simp only [List.mem_cons, List.not_mem_nil, or_false, not_or] at hname
    obtain ⟨htop, hskip, hfilter, horder, hcount⟩ := hname
    simp [visit, hkeyword]

/-- A parameter has one fault at most, as it fails with one error. -/
theorem Fault.unique (h : Fault p e) (h' : Fault p e') : e = e' :=
  Except.error.inj ((visit_of_fault h {}).symm.trans (visit_of_fault h' {}))

/-- A parameter at fault is one of the options, but not the filter, whose text is read later. -/
theorem Fault.isKeyword (h : Fault p e) : Http.isKeyword p.1 ∧ p.1 ≠ "$filter" := by
  cases h with
  | bound hname hraw =>
    rcases hname with rfl | rfl
    · simp [Http.isKeyword]
    · simp [Http.isKeyword]
  | count htrue hfalse => simp [Http.isKeyword]
  | keyword hkeyword hname =>
    refine ⟨hkeyword, ?_⟩
    rintro rfl
    simp at hname

/-- Any other parameter sets its field, or none if its name does not begin with a dollar sign. -/
theorem visit_of_faultless (h : ∀ e, ¬Fault p e) (o : ListOptions) :
    o.visit p.1 p.2 = .ok (o.assign p) := by
  obtain ⟨name, raw⟩ := p
  dsimp only
  unfold visit
  split
  case h_1 =>
    cases hraw : Text.readInteger? (Text.trim raw) with
    | none => exact absurd (.bound (.inl rfl) hraw) (h _)
    | some n => simp [integerOption, assign, hraw, bind, Except.bind, pure, Except.pure]
  case h_2 =>
    cases hraw : Text.readInteger? (Text.trim raw) with
    | none => exact absurd (.bound (.inr rfl) hraw) (h _)
    | some n => simp [integerOption, assign, hraw, bind, Except.bind, pure, Except.pure]
  case h_3 => simp [assign]
  case h_4 => simp [assign]
  case h_5 =>
    by_cases htrue : raw = "true"
    · simp [countOption, assign, htrue, bind, Except.bind, pure, Except.pure]
    · by_cases hfalse : raw = "false"
      · simp [countOption, assign, hfalse, bind, Except.bind, pure, Except.pure]
      · exact absurd (.count htrue hfalse) (h _)
  case h_6 htop hskip hfilter horder hcount =>
    have hkeyword : ¬isKeyword name := fun hkeyword =>
      h _ (.keyword hkeyword (by simpa using ⟨htop, hskip, hfilter, horder, hcount⟩))
    simp [assign, hkeyword, if_neg htop, if_neg hskip, if_neg hfilter, if_neg horder, if_neg hcount]

/-- **What one more parameter does** to the options: it sets its field, or there is an error. This
is all that is used of the definition below. -/
theorem visit_eq_ok_iff :
    o.visit p.1 p.2 = .ok o' ↔ (∀ e, ¬Fault p e) ∧ o.assign p = o' := by
  constructor
  · intro h
    have hfaultless : ∀ e, ¬Fault p e := fun e he => by simp [visit_of_fault he] at h
    exact ⟨hfaultless, Except.ok.inj ((visit_of_faultless hfaultless o).symm.trans h)⟩
  · rintro ⟨h, rfl⟩
    exact visit_of_faultless h o

/-- Parameters with different names set different fields. This is where distinct names are needed:
of two with one name, the later one would win. -/
theorem assign_comm (h : p.1 ≠ q.1) (o : ListOptions) :
    (o.assign p).assign q = (o.assign q).assign p := by
  have hfield {α : Type} (x y z : α) (name : String) :
      (if q.1 = name then x else if p.1 = name then y else z) =
        if p.1 = name then y else if q.1 = name then x else z := by
    by_cases hp : p.1 = name
    · have hq : q.1 ≠ name := fun hq => h (hp.trans hq.symm)
      simp [hp, hq]
    · simp [hp]
  simp only [assign, hfield]

/-! ### What the error of a fault tells -/

/-- The name that a message about a value begins with. -/
def toldName (message : String) : List Char := message.toList.takeWhile (· ≠ ' ')

/-- The error of a fault begins with the name, or is the one for unknown names. -/
theorem Fault.tells (h : Fault p e) :
    e = unknownKeyword p.1 ∨ ∃ message, e = .badRequest message ∧ toldName message = p.1.toList := by
  cases h with
  | bound hname hraw =>
    refine .inr ⟨_, rfl, ?_⟩
    rcases hname with rfl | rfl
    · simp [toldName, ToString.toString]
    · simp [toldName, ToString.toString]
  | count htrue hfalse => exact .inr ⟨_, rfl, by simp [toldName, ToString.toString]⟩
  | keyword hkeyword hname => exact .inl rfl

/-- **No two names have a fault in common.** So from the error that a client is told, one parameter
can be found to be at fault, and two orders that give the same error have met the same parameter. -/
theorem Fault.name_eq (h : Fault p e) (h' : Fault q e) : p.1 = q.1 := by
  rcases h.tells with hp | ⟨message, hp, hname⟩
  · rcases h'.tells with hq | ⟨message, hq, hname⟩
    · simpa [unknownKeyword, ToString.toString] using hp.symm.trans hq
    · simp [unknownKeyword, hp] at hq
  · rcases h'.tells with hq | ⟨message', hq, hname'⟩
    · simp [unknownKeyword, hp] at hq
    · obtain rfl : message = message' := by simpa [hp] using hq
      exact String.toList_injective (hname.symm.trans hname')

/-! ### All parameters -/

/-- Parameters without a fault give the options with all their fields set, by induction over the
parameters with any options so far. -/
theorem read_of_faultless (h : ∀ p ∈ ps, ∀ e, ¬Fault p e) : read ps = .ok (ps.foldl assign {}) := by
  unfold read
  generalize ({} : ListOptions) = o
  induction ps generalizing o with
  | nil => rfl
  | cons p ps ih =>
    obtain ⟨hp, hps⟩ := List.forall_mem_cons.mp h
    rw [List.foldlM_cons, visit_of_faultless hp]
    exact ih hps (o.assign p)

/-- The first parameter at fault decides, whatever comes after it, since reading stops there. -/
theorem read_of_fault {before after : List (String × String)}
    (hbefore : ∀ q ∈ before, ∀ e, ¬Fault q e) (hp : Fault p e) :
    read (before ++ p :: after) = .error e := by
  have hgood : ∀ (o : ListOptions) (q : String × String), True → (∀ e, ¬Fault q e) →
      ∃ o', o.visit q.1 q.2 = .ok o' ∧ True :=
    fun o q _ hq => ⟨o.assign q, visit_of_faultless hq o, trivial⟩
  exact Outcome.foldlM_of_first_fault hgood (fun o _ _ _ hq => visit_of_fault hq o) trivial hbefore hp

/-- No parameter is at fault, or one is the first. These are the two cases in which the outcome is
known. -/
theorem faultless_or_first_fault (ps : List (String × String)) :
    (∀ p ∈ ps, ∀ e, ¬Fault p e) ∨ ∃ before p after e, ps = before ++ p :: after ∧
      (∀ q ∈ before, ∀ e, ¬Fault q e) ∧ Fault p e :=
  Outcome.good_or_first_fault (fun _ => or_iff_not_imp_right.mpr not_exists.mp) ps

/-- There are options exactly if no parameter is at fault. Neither side depends on the order of the
parameters, as far as the first condition goes. -/
theorem read_eq_ok_iff :
    read ps = .ok o ↔ (∀ p ∈ ps, ∀ e, ¬Fault p e) ∧ ps.foldl assign {} = o := by
  rcases faultless_or_first_fault ps with h | ⟨before, p, after, e, rfl, hbefore, hp⟩
  · rw [read_of_faultless h]
    exact ⟨fun heq => ⟨h, Except.ok.inj heq⟩, fun heq => congrArg _ heq.2⟩
  · rw [read_of_fault hbefore hp]
    exact ⟨by simp, fun heq => absurd hp (heq.1 p (by simp) e)⟩

/-- An error is the fault of a parameter. -/
theorem exists_fault_of_read (h : read ps = .error e) : ∃ p ∈ ps, Fault p e := by
  rcases faultless_or_first_fault ps with hps | ⟨before, p, after, e', rfl, hbefore, hp⟩
  · simp [read_of_faultless hps] at h
  · obtain rfl : e' = e := by simpa [read_of_fault hbefore hp] using h
    exact ⟨p, by simp, hp⟩

/-! ### Any order -/

/-- In any order, the fields are set to the same values: two parameters next to each other may be
exchanged, and exchanges lead from any order to any other. -/
theorem foldl_assign_perm (hnodup : (ps.map (·.1)).Nodup) (h : qs.Perm ps) :
    qs.foldl assign {} = ps.foldl assign {} := by
  refine (h.symm.foldl_eq' (fun p hp q hq o => ?_) ({} : ListOptions)).symm
  by_cases hname : p.1 = q.1
  · rw [List.inj_on_of_nodup_map hnodup hp hq hname]
  · exact assign_comm hname o

/-- If one order gives options, any other order gives the same ones: that no parameter is at fault
does not depend on the order, and neither does what the fields are set to. -/
theorem read_eq_ok_iff_of_perm (hnodup : (ps.map (·.1)).Nodup) (h : qs.Perm ps) :
    read qs = .ok o ↔ read ps = .ok o := by
  rw [read_eq_ok_iff, read_eq_ok_iff, foldl_assign_perm hnodup h]
  simp only [h.mem_iff]

/-- The order in which a request visits its parameters decides nothing but the fault: what is read
without one is the same in all orders. -/
theorem read_visits_eq_ok_iff (v : Visits) (ps : Texts) :
    read (v.entries ps) = .ok o ↔ read ps.entries = .ok o :=
  read_eq_ok_iff_of_perm ps.nodup_names (v.perm ps)

/-- Every fault is told in the orders that begin with its parameter, so no fault is hidden by
another one in all orders. -/
theorem exists_read_eq_error (hp : p ∈ ps) (h : Fault p e) :
    ∃ qs, qs.Perm ps ∧ read qs = .error e := by
  have hfirst : read ([] ++ p :: ps.erase p) = .error e := read_of_fault (by simp) h
  exact ⟨p :: ps.erase p, (List.perm_cons_erase hp).symm, hfirst⟩

/-- **Any order of the parameters** gives the same options, if one does. Where none does, the orders
give the faults of the parameters, and all give the same exactly if only one is at fault. -/
theorem read_in_any_order (hnodup : (ps.map (·.1)).Nodup) :
    (∀ qs o, qs.Perm ps → (read qs = .ok o ↔ read ps = .ok o)) ∧
      (∀ e, (∃ qs, qs.Perm ps ∧ read qs = .error e) ↔ ∃ p ∈ ps, Fault p e) ∧
      ((∀ qs qs', qs.Perm ps → qs'.Perm ps → read qs = read qs') ↔
        ∀ p ∈ ps, ∀ q ∈ ps, ∀ e e', Fault p e → Fault q e' → p = q) := by
  have hok : ∀ qs o, qs.Perm ps → (read qs = .ok o ↔ read ps = .ok o) := fun qs o =>
    read_eq_ok_iff_of_perm hnodup
  have herror : ∀ qs e, qs.Perm ps → read qs = .error e → ∃ p ∈ ps, Fault p e := by
    intro qs e hqs h
    obtain ⟨p, hp, hfault⟩ := exists_fault_of_read h
    exact ⟨p, hqs.mem_iff.mp hp, hfault⟩
  refine ⟨hok, fun e => ⟨?_, ?_⟩, ⟨?_, ?_⟩⟩
  · rintro ⟨qs, hqs, h⟩
    exact herror qs e hqs h
  · rintro ⟨p, hp, h⟩
    exact exists_read_eq_error hp h
  · -- the orders that begin with the one and with the other tell both faults
    intro hsame p hp q hq e e' hpe hqe
    obtain ⟨qs, hqs, hread⟩ := exists_read_eq_error hp hpe
    obtain ⟨qs', hqs', hread'⟩ := exists_read_eq_error hq hqe
    have heq : e = e' := by simpa [hread, hread'] using hsame qs qs' hqs hqs'
    subst heq
    exact List.inj_on_of_nodup_map hnodup hp hq (hpe.name_eq hqe)
  · intro hone qs qs' hqs hqs'
    cases h : read qs with
    | ok o => exact ((hok qs' o hqs').mpr ((hok qs o hqs).mp h)).symm
    | error e =>
      cases h' : read qs' with
      | ok o => simp [(hok qs o hqs).mpr ((hok qs' o hqs').mp h')] at h
      | error e' =>
        obtain ⟨p, hp, hpe⟩ := herror qs e hqs h
        obtain ⟨q, hq, hqe⟩ := herror qs' e' hqs' h'
        obtain rfl := hone p hp q hq e e' hpe hqe
        rw [hpe.unique hqe]

/-- The first records of a page with their number, in any order of the two parameters. -/
theorem read_in_any_order_page :
    ([("$top", "5"), ("$count", "true")].map (·.1)).Nodup ∧
      ∀ qs : List (String × String), qs.Perm [("$top", "5"), ("$count", "true")] →
        read qs = .ok { top := some 5, count := true } := by
  have hnodup : ([("$top", "5"), ("$count", "true")].map (·.1)).Nodup := by decide
  exact ⟨hnodup, fun qs hqs => ((read_in_any_order hnodup).1 qs _ hqs).mpr (by decide +kernel)⟩

/-- Two parameters at fault, where the order decides which of the two faults is told. -/
theorem order_decides_fault :
    ([("$expand", "x"), ("$top", "y")].map (·.1)).Nodup ∧
      [("$top", "y"), ("$expand", "x")].Perm [("$expand", "x"), ("$top", "y")] ∧
      read [("$expand", "x"), ("$top", "y")] = .error (.malformedRequest "Unknown keyword $expand.") ∧
      read [("$top", "y"), ("$expand", "x")] =
        .error (.badRequest "$top must be an integer (got 'y')") ∧
      read [("$top", "y"), ("$expand", "x")] ≠ read [("$expand", "x"), ("$top", "y")] := by
  decide +kernel

end RecordService.Http.ListOptions
