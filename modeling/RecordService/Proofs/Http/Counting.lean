import RecordService.Proofs.Http.Effect
import RecordService.Proofs.Http.Options
import RecordService.Proofs.Record.Texts
import RecordService.Proofs.Store.Listing
import RecordService.Proofs.Text.Numeral

/-!
# Counting records

The number of records that pass a filter is found without listing them. It is the length of the list
that is found without bounds, and counting fails exactly if this list fails
(`RecordService.Records.count_eq_length_find`). Over HTTP the number is given in two places: beside
the records of a listing, whatever the bounds of this listing are, and as a text below the set. Both
give the length of the listing without bounds (`RecordService.Memory.counts_agree`).

* `RecordService.Memory.length_select`: the two ways of the store to go through a table.
* `RecordService.Http.ListOptions.read_unpaged`, `RecordService.Http.ListOptions.filter_of_read`,
  `RecordService.Http.countFilter_eq_get?`: what the parameters of the requests have in common.
* `RecordService.Http.Request.Lists`, `RecordService.Http.Request.Counts`: requests for the records
  of a set, and for their number.
* `RecordService.Http.Request.Lists.respond_visits`: what the order of the parameters of such a
  request can change.
-/

namespace RecordService

open Memory

/-! ### Counting on the store -/

/-- Without bounds, as many records are selected as pass the filter. The store counts rows without
making records of them or sorting them, and it need not, since both keep the number. -/
theorem Memory.length_select (m : Memory) (t : RecordType) (f : Option Filter) (o : Order) :
    (m.select t { filter := f, order := o }).length = m.count t f := by
  have hcount : m.count t f = ((m.table t.name).kept f).length := by
    rw [Memory.count, Table.kept, List.filter_map, List.length_map, List.countP_eq_length_filter]
    rfl
  rw [Memory.select_eq, List.length_map, hcount]
  exact List.length_mergeSort _

namespace Records

variable {t : RecordType} {f : Option Filter} {o : Order}

/-- Counting on the store in memory. -/
theorem run_count (t : RecordType) (f : Option Filter) (m : Memory) :
    (count (m := StateM Memory) t f).run.run m =
      ((checkFilter t f).map fun _ => m.count t f, m) := by
  unfold count
  cases checkFilter t f <;> rfl

/-- Without bounds, only the filter of a selection may be refused: the order was parsed for the
entity, and there is no bound that could be negative. -/
theorem selection_unpaged (ho : checkOrder t o = .ok ()) :
    selection t none none f o = (checkFilter t f).map fun _ => { filter := f, order := o } := by
  rw [selection, ho]
  cases checkFilter t f <;> rfl

/-- **Counting finds the length of the list without bounds**, or fails as the list does. -/
theorem count_eq_length_find {text : Option String} (ho : Order.parse t text = .ok o)
    (f : Option Filter) (m : Memory) :
    ((count (m := StateM Memory) t f).run.run m).1 =
      ((find (m := StateM Memory) t none none f o).run.run m).1.map List.length := by
  rw [run_count, run_find, selection_unpaged (checkOrder_of_parse ho)]
  cases checkFilter t f with
  | error e => rfl
  | ok _ => exact congrArg Except.ok (m.length_select t f o).symm

end Records

/-! ### Parameters -/

namespace Texts

/-- The text with a name. -/
def get? (ts : Texts) (name : String) : Option String := ts.entries.lookup name

/-- What only the text with one name sets is set by that text, whatever else the texts set, by
induction over the entries. It is stated for any fold over texts, since each option of a query is
such a text. -/
theorem get_of_foldlM {σ ε α : Type} {step : σ → String × String → Except ε σ} (get : σ → α)
    (value : String → α) {name : String}
    (hget : ∀ {x y p}, step x p = .ok y → get y = if p.1 = name then value p.2 else get x)
    {ts : Texts} {x y : σ} (h : ts.entries.foldlM step x = .ok y) :
    get y = ((ts.get? name).map value).getD (get x) := by
  have hordered := ts.ordered
  rw [get?]
  generalize ts.entries = es at h hordered
  induction es generalizing x with
  | nil =>
    cases h
    rfl
  | cons p es ih =>
    obtain ⟨n, text⟩ := p
    rw [List.foldlM_cons] at h
    obtain ⟨next, hnext, h⟩ := Outcome.bind_eq_ok_iff.mp h
    obtain ⟨hfirst, hordered⟩ := List.pairwise_cons.mp hordered
    rw [ih h hordered, hget hnext, List.lookup_cons]
    by_cases hname : n = name
    · -- no later entry has the name as well
      have hnone : es.lookup name = none := by
        rw [List.lookup_eq_none_iff]
        intro q hq
        simpa [← hname] using String.ne_of_lt (hfirst q hq)
      simp [hname, hnone]
    · simp [hname, beq_false_of_ne (Ne.symm hname)]

end Texts

namespace Http

/-- The options without bounds. -/
def ListOptions.unpaged (o : ListOptions) : ListOptions := { o with top := none, skip := none }

namespace ListOptions

variable {o : ListOptions} {p : String × String} {ps : Texts}

/-- Bounds make no difference to the options without bounds. -/
theorem unpaged_assign_bound (hname : p.1 = "$top" ∨ p.1 = "$skip") (o : ListOptions) :
    (o.assign p).unpaged = o.unpaged := by
  rcases hname with hname | hname
  · simp [assign, unpaged, hname]
  · simp [assign, unpaged, hname]

/-- Other parameters make the same difference to them, so they can be set after the bounds are taken
away. -/
theorem unpaged_assign (hname : ¬(p.1 = "$top" ∨ p.1 = "$skip")) (o : ListOptions) :
    (o.assign p).unpaged = o.unpaged.assign p := by
  rw [not_or] at hname
  simp [assign, unpaged, hname]

/-- Taking the bounds away at the end is the same as leaving them out from the beginning. -/
theorem foldl_assign_unpaged (es : List (String × String)) (o : ListOptions) :
    (es.foldl assign o).unpaged =
      (es.filter fun p => p.1 != "$top" && p.1 != "$skip").foldl assign o.unpaged := by
  induction es generalizing o with
  | nil => rfl
  | cons p es ih =>
    rw [List.foldl_cons, ih]
    by_cases hname : p.1 = "$top" ∨ p.1 = "$skip"
    · rw [List.filter_cons_of_neg (by rcases hname with hname | hname <;> simp [hname]),
        unpaged_assign_bound hname]
    · rw [List.filter_cons_of_pos (by simpa using hname), List.foldl_cons, unpaged_assign hname]

/-- **Parameters without bounds** give the same options without bounds. In particular they are not
refused, if the parameters with bounds are not. -/
theorem read_unpaged (h : read ps.entries = .ok o) :
    read ((ps.erase "$top").erase "$skip").entries = .ok o.unpaged := by
  have hentries : ((ps.erase "$top").erase "$skip").entries =
      ps.entries.filter fun p => p.1 != "$top" && p.1 != "$skip" := by
    simp only [Texts.erase, List.filter_filter, Bool.and_comm]
  obtain ⟨hfaultless, rfl⟩ := read_eq_ok_iff.mp h
  rw [hentries]
  exact read_eq_ok_iff.mpr ⟨fun p hp => hfaultless p (List.mem_of_mem_filter hp),
    (foldl_assign_unpaged ps.entries {}).symm⟩

/-- The filter of a listing is the text of its parameter, which is not looked into before the entity
is known. -/
theorem filter_of_read (h : read ps.entries = .ok o) : o.filter = ps.get? "$filter" := by
  have hget : o.filter = ((ps.get? "$filter").map some).getD none := by
    refine Texts.get_of_foldlM ListOptions.filter some (fun {x y p} hvisit => ?_) h
    obtain ⟨-, rfl⟩ := visit_eq_ok_iff.mp hvisit
    rfl
  rw [hget]
  cases ps.get? "$filter" <;> rfl

/-- A count is asked for by one word only. Any other text but `false` is refused, so nothing else is
left to say here. -/
theorem count_of_read (h : read ps.entries = .ok o) :
    o.count = (ps.get? "$count" == some "true") := by
  have hget : o.count = ((ps.get? "$count").map (· == "true")).getD false := by
    refine Texts.get_of_foldlM ListOptions.count (· == "true") (fun {x y p} hvisit => ?_) h
    obtain ⟨-, rfl⟩ := visit_eq_ok_iff.mp hvisit
    rfl
  rw [hget]
  cases ps.get? "$count" <;> simp

end ListOptions

/-- Where the filter is the only option, a count takes it as a listing does. Both go through the
parameters one by one, so the induction is over the parameters, with any options so far. -/
theorem countFilter_eq_filter {es : List (String × String)}
    (hes : ∀ p ∈ es, isKeyword p.1 → p.1 = "$filter") :
    countFilter es = .ok (es.foldl ListOptions.assign {}).filter := by
  change es.foldlM _ ({} : ListOptions).filter = _
  generalize ({} : ListOptions) = o
  induction es generalizing o with
  | nil => rfl
  | cons p es ih =>
    obtain ⟨hp, hes⟩ := List.forall_mem_cons.mp hes
    rw [List.foldlM_cons, List.foldl_cons, ← ih hes]
    by_cases hname : p.1 = "$filter"
    · simp [ListOptions.assign, hname, bind, Except.bind]
    · have hkeyword : ¬isKeyword p.1 := fun hkeyword => hname (hp hkeyword)
      simp [ListOptions.assign, hname, hkeyword, bind, Except.bind]

/-- **The parameters of a count** give its filter, in whatever order they are visited. -/
theorem countFilter_eq_get? {ps : Texts} (hps : ∀ p ∈ ps.entries, isKeyword p.1 → p.1 = "$filter")
    (v : Visits) : countFilter (v.entries ps) = .ok (ps.get? "$filter") := by
  have hfaultless : ∀ p ∈ ps.entries, ∀ e, ¬ListOptions.Fault p e := fun p hp e he =>
    he.isKeyword.2 (hps p hp he.isKeyword.1)
  have hread := ListOptions.read_of_faultless hfaultless
  rw [countFilter_eq_filter fun p hp => hps p ((v.perm ps).mem_iff.mp hp),
    ListOptions.foldl_assign_perm ps.nodup_names (v.perm ps), ListOptions.filter_of_read hread]

/-! ### Listing and counting -/

namespace Entities

variable {reg : Registry} {a : Address} {o : ListOptions} {t : RecordType} {f : Option Filter}
variable {order : Order} {m : Memory}

/-- **Listing** on the store in memory. The count is taken before the page, and by the same filter,
so that it does not depend on the bounds. -/
theorem run_list (reg : Registry) (a : Address) (o : ListOptions) (m : Memory) :
    (list (m := StateM Memory) reg a o).run.run m = (do
      let t ← reg.resolve a.entity
      let f ← Filter.parse t o.filter
      let order ← Order.parse t o.order
      let s ← Records.selection t o.top o.skip f order
      return .json 200 (listData (m.select t s) (if o.count then some (m.count t f) else none)),
      m) := by
  refine run_check fun t ht => run_check fun f hf => run_check fun order ho => ?_
  have hcount := Records.run_count t f m
  rw [Records.checkFilter_of_parse hf] at hcount
  have hfind := Records.run_find t o.top o.skip f order m
  have hrest (count : Option Nat) : (do
      let records ← Records.find (m := StateM Memory) t o.top o.skip f order
      return Response.json 200 (listData records count)).run.run m =
        ((Records.selection t o.top o.skip f order).map fun s =>
          .json 200 (listData (m.select t s) count), m) := by
    rw [run_bind, hfind]
    cases Records.selection t o.top o.skip f order <;> rfl
  dsimp only
  split
  · have hsome : (some <$> Records.count (m := StateM Memory) t f).run.run m =
        (.ok (some (m.count t f)), m) := by
      rw [map_eq_pure_bind]
      exact run_bind_of_ok hcount _
    exact (run_bind_of_ok hsome _).trans (hrest _)
  · exact hrest none

/-- **Counting** on the store in memory, with a filter that can be read. -/
theorem run_count {reg : Registry} {a : Address} {text : Option String} {t : RecordType}
    {f : Option Filter} (ht : reg.resolve a.entity = .ok t) (hf : Filter.parse t text = .ok f)
    (m : Memory) :
    (count (m := StateM Memory) reg a text).run.run m =
      (.ok (.plain (Text.natural (m.count t f))), m) := by
  have hcount := Records.run_count t f m
  rw [Records.checkFilter_of_parse hf] at hcount
  calc (count (m := StateM Memory) reg a text).run.run m
    _ = _ := run_bind_of_ok (run_liftM_ok ht) _
    _ = _ := run_bind_of_ok (run_liftM_ok hf) _
    _ = _ := run_bind_of_ok hcount _

end Entities

/-! ### Requests -/

/-- A request for the records of a set, with some parameters. -/
structure Request.Lists (s : Service) (entity : String) (ps : Texts) (r : Request) : Prop where
  method : r.method = .get
  size : r.body.length ≤ s.bodyLimit
  target : ∃ t raw segment, Target.read? r.target = some t ∧
    Route.ofSegments? t.segments = some (.set raw) ∧ segment? raw = some segment ∧
    Address.read segment = .ok ⟨entity, none⟩ ∧ t.parameters = ps

/-- A request for the number of records of a set, with some parameters. -/
structure Request.Counts (entity : String) (ps : Texts) (r : Request) : Prop where
  method : r.method = .get
  target : ∃ t raw rawWord segment, Target.read? r.target = some t ∧
    Route.ofSegments? t.segments = some (.property raw rawWord) ∧ segment? raw = some segment ∧
    segment? rawWord = some Entities.countWord ∧
    Address.read segment = .ok ⟨entity, none⟩ ∧ t.parameters = ps

namespace Request

variable {s : Service} {entity : String} {ps : Texts} {r : Request}

/-- The service responds to a request for records with a listing, whose options are read in the
order in which the request visits its parameters. -/
theorem Lists.respond (h : r.Lists s entity ps) :
    s.respond (m := StateM Memory) r = Service.answer
      (liftM (ListOptions.read (r.visits.entries ps)) >>=
        Entities.list s.registry ⟨entity, none⟩) := by
  obtain ⟨t, raw, segment, htarget, hroute, hsegment, ha, rfl⟩ := h.target
  have hsize : ¬s.bodyLimit < r.body.length := Nat.not_lt.mpr h.size
  simp only [Service.respond, Service.respondFully, htarget, hroute, Service.onSet, hsize, h.method,
    hsegment, Service.atAddress, ha]
  rfl

/-- The service responds to a request for the number of records with a count, whose filter is read
in the same way. -/
theorem Counts.respond (h : r.Counts entity ps) (s : Service) :
    s.respond (m := StateM Memory) r = Service.answer
      (liftM (countFilter (r.visits.entries ps)) >>=
        Entities.count s.registry ⟨entity, none⟩) := by
  obtain ⟨t, raw, rawWord, segment, htarget, hroute, hsegment, hword, ha, rfl⟩ := h.target
  simp only [Service.respond, Service.respondFully, htarget, hroute, Service.onProperty, h.method,
    hsegment, hword, Service.atAddress, ha]
  rfl

/-- A listing with a parameter at fault is refused, and the fault that is met first is told. -/
theorem Lists.respond_of_error (h : r.Lists s entity ps) {e : RequestError}
    (he : ListOptions.read (r.visits.entries ps) = .error e) :
    s.respond (m := StateM Memory) r = pure (.ofError e) := by
  rw [h.respond, he]
  rfl

/-- **Visiting the parameters in another order** changes the response to a listing only if two of
them are at fault: then each order tells the fault that it meets first. -/
theorem Lists.respond_visits (h : r.Lists s entity ps) (v : Visits) :
    s.respond (m := StateM Memory) { r with visits := v } = s.respond r ∨
      ∃ p ∈ ps.entries, ∃ q ∈ ps.entries, ∃ e e' : RequestError,
        p ≠ q ∧ ListOptions.Fault p e ∧ ListOptions.Fault q e' ∧
        s.respond (m := StateM Memory) { r with visits := v } = pure (.ofError e) ∧
        s.respond (m := StateM Memory) r = pure (.ofError e') := by
  have hv : Lists s entity ps { r with visits := v } := ⟨h.method, h.size, h.target⟩
  cases hr : ListOptions.read (r.visits.entries ps) with
  | ok o =>
    have hother : ListOptions.read (v.entries ps) = .ok o := by
      rw [ListOptions.read_visits_eq_ok_iff] at hr ⊢
      exact hr
    left
    rw [hv.respond, h.respond, hr, hother]
  | error e' =>
    cases hother : ListOptions.read (v.entries ps) with
    | ok o =>
      rw [ListOptions.read_visits_eq_ok_iff] at hother
      simp [(ListOptions.read_visits_eq_ok_iff r.visits ps).mpr hother] at hr
    | error e =>
      obtain ⟨p, hp, hpe⟩ := ListOptions.exists_fault_of_read hother
      obtain ⟨q, hq, hqe⟩ := ListOptions.exists_fault_of_read hr
      by_cases hpq : p = q
      · subst hpq
        left
        rw [hv.respond_of_error hother, h.respond_of_error hr, hpe.unique hqe]
      · exact .inr ⟨p, (v.perm ps).mem_iff.mp hp, q, (r.visits.perm ps).mem_iff.mp hq, e, e', hpq,
          hpe, hqe, hv.respond_of_error hother, h.respond_of_error hr⟩

/-- A listing that is answered has read its options, which the order has no part in. -/
theorem Lists.exists_read (h : r.Lists s entity ps) {m : Memory}
    (hsuccess : ((s.respond (m := StateM Memory) r).run m).1.Successful) :
    ∃ o, ListOptions.read ps.entries = .ok o := by
  cases hread : ListOptions.read (r.visits.entries ps) with
  | ok o => exact ⟨o, (ListOptions.read_visits_eq_ok_iff r.visits ps).mp hread⟩
  | error e =>
    rw [h.respond_of_error hread] at hsuccess
    exact absurd hsuccess (Response.not_successful_ofError e)

/-- A listing, once the options are read. It leaves the store as it is. -/
theorem Lists.run_respond (h : r.Lists s entity ps) {o : ListOptions}
    (ho : ListOptions.read ps.entries = .ok o) (m : Memory) :
    (s.respond (m := StateM Memory) r).run m =
      (match ((Entities.list (m := StateM Memory) s.registry ⟨entity, none⟩ o).run.run m).1 with
        | .ok response => response
        | .error e => .ofError e, m) := by
  rw [h.respond, (ListOptions.read_visits_eq_ok_iff r.visits ps).mpr ho, Service.run_answer]
  exact Prod.ext rfl (Entities.readsOnly_list s.registry ⟨entity, none⟩ o m)

/-- A count, once the filter is read. It leaves the store as it is as well. -/
theorem Counts.run_respond (h : r.Counts entity ps) {text : Option String}
    (htext : countFilter (r.visits.entries ps) = .ok text) (s : Service) (m : Memory) :
    (s.respond (m := StateM Memory) r).run m =
      (match ((Entities.count (m := StateM Memory) s.registry ⟨entity, none⟩ text).run.run m).1 with
        | .ok response => response
        | .error e => .ofError e, m) := by
  rw [h.respond, htext, Service.run_answer]
  exact Prod.ext rfl (Entities.readsOnly_count s.registry ⟨entity, none⟩ text m)

end Request

namespace Entities

variable {reg : Registry} {a : Address} {o : ListOptions} {m : Memory} {response : Response}

/-- **A listing that succeeds**, with the one without bounds and the count that go with it. That
these two succeed is a part of the statement: they resolve the same entity and parse the same filter
and order. -/
theorem list_eq_ok (hcount : o.count = true)
    (h : ((list (m := StateM Memory) reg a o).run.run m).1 = .ok response) :
    ∃ page all : List Record,
      response = .json 200 (listData page (some all.length)) ∧
      (list (m := StateM Memory) reg a o.unpaged).run.run m =
        (.ok (.json 200 (listData all (some all.length))), m) ∧
      (count (m := StateM Memory) reg a o.filter).run.run m =
        (.ok (.plain (Text.natural all.length)), m) := by
  rw [run_list] at h
  obtain ⟨t, ht, h⟩ := Outcome.bind_eq_ok_iff.mp h
  obtain ⟨f, hf, h⟩ := Outcome.bind_eq_ok_iff.mp h
  obtain ⟨order, ho, h⟩ := Outcome.bind_eq_ok_iff.mp h
  obtain ⟨selected, -, h⟩ := Outcome.bind_eq_ok_iff.mp h
  have hall := Records.selection_unpaged (f := f) (Records.checkOrder_of_parse ho)
  rw [Records.checkFilter_of_parse hf] at hall
  have hlength := m.length_select t f order
  refine ⟨m.select t selected, m.select t { filter := f, order := order }, ?_, ?_, ?_⟩
  · obtain rfl := Except.ok.inj h
    rw [hcount, hlength]
    rfl
  · rw [run_list]
    refine Prod.ext (Outcome.bind_eq_ok_iff.mpr ⟨t, ht, Outcome.bind_eq_ok_iff.mpr ⟨f, hf,
      Outcome.bind_eq_ok_iff.mpr ⟨order, ho, Outcome.bind_eq_ok_iff.mpr ⟨_, hall, ?_⟩⟩⟩⟩) rfl
    have hunpaged : o.unpaged.count = true := hcount
    rw [hunpaged, hlength]
    rfl
  · rw [run_count ht hf, hlength]

end Entities

/-- **The counts over HTTP agree.** If a listing that asks for a count is answered, the count is the
number of records in the listing without bounds, which is answered as well, and the text below the
set for the same filter. -/
theorem Service.respond_counts {s : Service} {entity : String} {ps qs : Texts}
    {r plain number : Request} {m : Memory} (hr : r.Lists s entity ps)
    (hcount : ps.get? "$count" = some "true")
    (hplain : plain.Lists s entity ((ps.erase "$top").erase "$skip"))
    (hnumber : number.Counts entity qs) (hfilter : qs.get? "$filter" = ps.get? "$filter")
    (hqs : ∀ p ∈ qs.entries, isKeyword p.1 → p.1 = "$filter")
    (hsuccess : ((s.respond (m := StateM Memory) r).run m).1.Successful) :
    ∃ page all : List Record,
      (s.respond (m := StateM Memory) r).run m =
        (.json 200 (Entities.listData page (some all.length)), m) ∧
      (s.respond (m := StateM Memory) plain).run m =
        (.json 200 (Entities.listData all (some all.length)), m) ∧
      (s.respond (m := StateM Memory) number).run m =
        (.plain (Text.natural all.length), m) := by
  obtain ⟨o, ho⟩ := hr.exists_read hsuccess
  have hocount : o.count = true := by
    rw [ListOptions.count_of_read ho, hcount]
    rfl
  have htext : countFilter (number.visits.entries qs) = .ok o.filter := by
    rw [countFilter_eq_get? hqs, hfilter, ListOptions.filter_of_read ho]
  rw [hr.run_respond ho] at hsuccess ⊢
  rw [hplain.run_respond (ListOptions.read_unpaged ho), hnumber.run_respond htext]
  cases hlist : ((Entities.list (m := StateM Memory) s.registry ⟨entity, none⟩ o).run.run m).1 with
  | error e =>
    rw [hlist] at hsuccess
    exact absurd hsuccess (Response.not_successful_ofError e)
  | ok response =>
    obtain ⟨page, all, rfl, hall, hnumber⟩ := Entities.list_eq_ok hocount hlist
    exact ⟨page, all, rfl, by rw [hall], by rw [hnumber]⟩

end Http

open Http

/-- **Counts agree with lists.** In every state of the store, counting finds the length of the list
without bounds or fails as that list does. And when a request for a list and its count is answered,
the count is the number of records in the answer to the same request without bounds, and what the
request for the number of records with this filter is answered. -/
theorem Memory.counts_agree (m : Memory) :
    (∀ (t : RecordType) (f : Option Filter) (text : Option String) (o : Order),
      Order.parse t text = .ok o →
      ((Records.count (m := StateM Memory) t f).run.run m).1 =
        ((Records.find (m := StateM Memory) t none none f o).run.run m).1.map List.length) ∧
    ∀ (s : Service) (entity : String) (ps qs : Texts) (r plain number : Request),
      r.Lists s entity ps → ps.get? "$count" = some "true" →
      plain.Lists s entity ((ps.erase "$top").erase "$skip") →
      number.Counts entity qs → qs.get? "$filter" = ps.get? "$filter" →
      (∀ p ∈ qs.entries, isKeyword p.1 → p.1 = "$filter") →
      ((s.respond (m := StateM Memory) r).run m).1.Successful →
      ∃ page all : List Record,
        (s.respond (m := StateM Memory) r).run m =
          (.json 200 (Entities.listData page (some all.length)), m) ∧
        (s.respond (m := StateM Memory) plain).run m =
          (.json 200 (Entities.listData all (some all.length)), m) ∧
        (s.respond (m := StateM Memory) number).run m = (.plain (Text.natural all.length), m) := by
  refine ⟨fun t f text o ho => Records.count_eq_length_find ho f m, ?_⟩
  intro s entity ps qs r plain number hr hcount hplain hnumber hfilter hqs hsuccess
  exact Service.respond_counts hr hcount hplain hnumber hfilter hqs hsuccess

/-! ### Counting a shelf of photos -/

namespace Records

/-- A service for the shelf. -/
def shelfService : Service := ⟨⟨[Memory.photo]⟩, 100⟩

/-- A request to read something. -/
def reading (target : String) : Request where
  method := .get
  target := target

/-- What such a request leads to. -/
def shown (target : String) : Response × Memory :=
  (shelfService.respond (m := StateM Memory) (reading target)).run (Memory.run shelf).memory

/-- The parameters for two of the photos behind the first one, and for how many these are. -/
def pageParameters : Texts :=
  ⟨[("$count", "true"), ("$filter", "Id gt 1"), ("$top", "2")], by decide⟩

/-- The parameters for the number of these photos. -/
def numberParameters : Texts := ⟨[("$filter", "Id gt 1")], by decide⟩

/-- Parameters are told by their entries, which can be computed. -/
theorem parameters_eq {target : Target} {ps : Texts} (h : target.parameters.entries = ps.entries) :
    target.parameters = ps := Texts.ext_of_mem fun e => by rw [h]

theorem read?_eq {s : String} {segments : List String} {query : List Char}
    (h : (Target.read? s).map (fun t => (t.segments, t.query)) = some (segments, query)) :
    Target.read? s = some ⟨segments, query⟩ := by
  obtain ⟨t, ht, ⟨⟩⟩ := Option.map_eq_some_iff.mp h
  exact ht

/-- A request for photos by a target that can be read. -/
theorem lists_reading (target query : String) (ps : Texts)
    (htarget : (Target.read? target).map (fun t => (t.segments, t.query)) =
      some (["Photo"], query.toList))
    (hps : (Target.mk ["Photo"] query.toList).parameters.entries = ps.entries) :
    (reading target).Lists shelfService "Photo" ps :=
  have hroute : Route.ofSegments? ["Photo"] = some (.set "Photo") := by decide
  ⟨rfl, Nat.zero_le _, _, "Photo", "Photo", read?_eq htarget, hroute, by decide +kernel,
    by decide +kernel, parameters_eq hps⟩

end Records

open Records in
/-- Four photos are behind the first one, however many of them are shown. -/
theorem Memory.counts_agree_shelf :
    ((Records.count (m := StateM Memory) photo (some later)).run.run (run shelf).memory).1 =
        ((Records.find (m := StateM Memory) photo none none (some later) byName).run.run
          (run shelf).memory).1.map List.length ∧
      ∃ page all : List Record, all.length = 4 ∧
        shown "/Photo?$top=2&$filter=Id%20gt+1&$count=true" =
          (.json 200 (Entities.listData page (some all.length)), (run shelf).memory) ∧
        shown "/Photo?$filter=Id+gt+1&$count=true" =
          (.json 200 (Entities.listData all (some all.length)), (run shelf).memory) ∧
        shown "/Photo/$count?$filter=Id+gt+1" =
          (.plain (Text.natural all.length), (run shelf).memory) := by
  have hlisting := lists_reading "/Photo?$top=2&$filter=Id%20gt+1&$count=true"
    "$top=2&$filter=Id%20gt+1&$count=true" pageParameters (by decide +kernel) (by decide +kernel)
  have hplain := lists_reading "/Photo?$filter=Id+gt+1&$count=true" "$filter=Id+gt+1&$count=true"
    ((pageParameters.erase "$top").erase "$skip") (by decide +kernel) (by decide +kernel)
  have hcounts : (reading "/Photo/$count?$filter=Id+gt+1").Counts "Photo" numberParameters :=
    ⟨rfl, ⟨["Photo", "$count"], "$filter=Id+gt+1".toList⟩, "Photo", "$count", "Photo",
      read?_eq (by decide +kernel), by decide +kernel, by decide +kernel, by decide +kernel,
      by decide +kernel, parameters_eq (by decide +kernel)⟩
  have hsuccess : ((shelfService.respond (m := StateM Memory)
      (reading "/Photo?$top=2&$filter=Id%20gt+1&$count=true")).run
        (run shelf).memory).1.Successful := by
    unfold Response.Successful
    decide +kernel
  obtain ⟨hcount, hrespond⟩ := counts_agree (run shelf).memory
  obtain ⟨page, all, hpage, hall, hnumber⟩ := hrespond shelfService "Photo" pageParameters
    numberParameters _ _ _ hlisting (by decide) hplain hcounts (by decide) (by decide +kernel)
    hsuccess
  refine ⟨hcount photo (some later) _ byName parse_byName, page, all, ?_, hpage, hall, hnumber⟩
  -- the number below the set, computed
  have htext : countFilter ((reading "/Photo/$count?$filter=Id+gt+1").visits.entries
      numberParameters) = .ok (some "Id gt 1") := by decide +kernel
  have hfilter : Filter.parse photo (some "Id gt 1") = .ok (some later) := by decide +kernel
  have hfour := Entities.run_count (a := ⟨"Photo", none⟩)
    (show shelfService.registry.resolve "Photo" = .ok photo from rfl) hfilter (run shelf).memory
  rw [hcounts.run_respond htext, hfour] at hnumber
  have hnatural : Text.natural ((run shelf).memory.count photo (some later)) =
      Text.natural all.length := by
    injection congrArg Prod.fst hnumber with _ _ _ hbody
    injection hbody
  have hdigits := Text.digits?_toDigits all.length
  rw [← String.ofList_injective hnatural] at hdigits
  exact Option.some.inj (hdigits.symm.trans (Text.digits?_toDigits _))

end RecordService
