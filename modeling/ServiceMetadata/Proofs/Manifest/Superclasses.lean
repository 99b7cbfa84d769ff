import ServiceMetadata.Manifest.Inheritance

/-!
# Records come from the nearest superclass

The superclasses of a class form a sequence that may go round in a cycle for ever. The walk that
looks for a record passes every name at most once; it gives the record of the first class of the
sequence that has one, and gives none only if no class of the whole sequence has one.
-/
namespace ServiceMetadata
variable {α : Type} {pick : ClassDecl → Option α} {m : Manifest} {d : ClassDecl}

def Manifest.superclass? (m : Manifest) (d : ClassDecl) : Option ClassDecl :=
  d.extends?.bind fun parent => (m.classes.filter (·.name = parent)).getLast?

/-- The class that lies `k` steps above another, if there is one. -/
def Manifest.above? (m : Manifest) (d : ClassDecl) : Nat → Option ClassDecl
  | 0 => some d
  | k + 1 => (m.above? d k).bind m.superclass?

theorem findClass_eq_getLast? (classes : List ClassDecl) (name : String) :
    findClass classes name = (classes.filter (·.name = name)).getLast? := by
  rw [findClass, List.getLast?_eq_head?_reverse, ← List.filter_reverse, List.head?_filter]

theorem superclass?_of_extends {parent : String} (h : d.extends? = some parent) :
    m.superclass? d = findClass m.classes parent := by
  rw [Manifest.superclass?, h, findClass_eq_getLast?]
  rfl

theorem superclass?_of_root (h : d.extends? = none) : m.superclass? d = none := by
  rw [Manifest.superclass?, h]
  rfl

theorem above?_succ (m : Manifest) (d : ClassDecl) (k : Nat) :
    m.above? d (k + 1) = (m.superclass? d).bind fun s => m.above? s k := by
  induction k with
  | zero => cases h : m.superclass? d <;> simp [Manifest.above?, h]
  | succ k ih =>
    rw [Manifest.above?, ih, Option.bind_assoc]
    rfl

def unpassed (classes : List ClassDecl) (passed : List String) : List ClassDecl :=
  classes.filter (·.name ∉ passed)

theorem strikeOff_unpassed (classes : List ClassDecl) (passed : List String) (name : String) :
    strikeOff (unpassed classes passed) name = unpassed classes (name :: passed) := by
  simp only [strikeOff, unpassed, List.filter_filter]
  apply List.filter_congr
  intro c _
  simp

theorem findClass_unpassed (classes : List ClassDecl) (passed : List String) (name : String) :
    findClass (unpassed classes passed) name =
      if name ∈ passed then none else findClass classes name := by
  simp only [findClass_eq_getLast?, unpassed, List.filter_filter]
  split
  · rename_i hmem
    rw [List.filter_eq_nil_iff.2, List.getLast?_nil]
    intro c _ hc
    simp only [Bool.and_eq_true, decide_eq_true_eq] at hc
    exact hc.2 (hc.1 ▸ hmem)
  · rename_i hmem
    congr 1
    apply List.filter_congr
    intro c _
    by_cases hc : c.name = name <;> simp [hc, hmem]

/-- What is known of a walk that has come to `d`: the classes `seen` before have no record, whatever
they extend is among them or is `d`, and so is whatever has one of the names `passed`. -/
structure Walk (pick : ClassDecl → Option α) (m : Manifest) (passed : List String)
    (seen : List ClassDecl) (d : ClassDecl) : Prop where
  bare : ∀ c ∈ seen, pick c = none
  closed : ∀ c ∈ seen, ∀ s, m.superclass? c = some s → s ∈ d :: seen
  named : ∀ name ∈ passed, ∀ c, findClass m.classes name = some c → c ∈ d :: seen

theorem Walk.start (d : ClassDecl) : Walk pick m [] [] d where
  bare := by simp
  closed := by simp
  named := by simp

theorem Walk.step {passed : List String} {seen : List ClassDecl} {parent : String}
    {super : ClassDecl} (w : Walk pick m passed seen d) (hd : pick d = none)
    (hext : d.extends? = some parent) (hsuper : findClass m.classes parent = some super) :
    Walk pick m (parent :: passed) (d :: seen) super where
  bare := by
    intro c hc
    rcases List.mem_cons.1 hc with rfl | hc
    · exact hd
    · exact w.bare c hc
  closed := by
    intro c hc s hs
    rcases List.mem_cons.1 hc with rfl | hc
    · rw [superclass?_of_extends hext, hsuper] at hs
      exact List.mem_cons.2 (.inl (Option.some.inj hs).symm)
    · exact List.mem_cons_of_mem _ (w.closed c hc s hs)
  named := by
    intro name hname c hc
    rcases List.mem_cons.1 hname with rfl | hname
    · exact List.mem_cons.2 (.inl (Option.some.inj (hc.symm.trans hsuper)))
    · exact List.mem_cons_of_mem _ (w.named name hname c hc)

theorem Walk.bare_above {passed : List String} {seen : List ClassDecl}
    (w : Walk pick m passed seen d) (hd : pick d = none)
    (hback : ∀ s, m.superclass? d = some s → s ∈ d :: seen) :
    ∀ k c, m.above? d k = some c → pick c = none := by
  have hseen : ∀ k c, m.above? d k = some c → c ∈ d :: seen := by
    intro k
    induction k with
    | zero =>
      intro c hc
      exact List.mem_cons.2 (.inl (Option.some.inj hc).symm)
    | succ k ih =>
      intro c hc
      obtain ⟨b, hb, hbc⟩ := Option.bind_eq_some_iff.1 hc
      rcases List.mem_cons.1 (ih b hb) with rfl | hmem
      · exact hback c hbc
      · exact w.closed b hmem c hbc
  intro k c hc
  rcases List.mem_cons.1 (hseen k c hc) with rfl | hmem
  · exact hd
  · exact w.bare c hmem

/-- The record of the nearest class that has one, from `d` upward. -/
def Manifest.IsNearest (m : Manifest) (pick : ClassDecl → Option α) (d : ClassDecl) (r : α) :
    Prop :=
  ∃ k s, m.above? d k = some s ∧ pick s = some r ∧
    ∀ j < k, ∀ c, m.above? d j = some c → pick c = none

theorem isNearest_self {r : α} (h : pick d = some r) : m.IsNearest pick d r :=
  ⟨0, d, rfl, h, fun _ hj => absurd hj (Nat.not_lt_zero _)⟩

theorem isNearest_above {super : ClassDecl} {r : α} (hd : pick d = none)
    (hsuper : m.superclass? d = some super) (h : m.IsNearest pick super r) :
    m.IsNearest pick d r := by
  obtain ⟨k, s, hs, hr, hbelow⟩ := h
  refine ⟨k + 1, s, ?_, hr, fun j hj c hc => ?_⟩
  · rw [above?_succ, hsuper]
    exact hs
  · cases j with
    | zero => exact Option.some.inj hc ▸ hd
    | succ j =>
      rw [above?_succ, hsuper] at hc
      exact hbelow j (by omega) c hc

theorem none_above {super : ClassDecl} (hd : pick d = none)
    (hsuper : m.superclass? d = some super)
    (h : ∀ k c, m.above? super k = some c → pick c = none) :
    ∀ k c, m.above? d k = some c → pick c = none := by
  intro k c hc
  cases k with
  | zero => exact Option.some.inj hc ▸ hd
  | succ k =>
    rw [above?_succ, hsuper] at hc
    exact h k c hc

theorem inherited_unpassed (passed : List String) (seen : List ClassDecl)
    (w : Walk pick m passed seen d) :
    match inherited pick (unpassed m.classes passed) d with
    | some r => m.IsNearest pick d r
    | none => ∀ k c, m.above? d k = some c → pick c = none := by
  generalize hun : unpassed m.classes passed = classes
  fun_induction inherited pick classes d generalizing passed seen with
  | case1 classes d r hr => exact isNearest_self hr
  | case2 classes d hd hext =>
    exact w.bare_above hd (by simp [superclass?_of_root hext])
  | case3 classes d hd parent hext hnone =>
    apply w.bare_above hd
    intro s hs
    rw [superclass?_of_extends hext] at hs
    rw [← hun, findClass_unpassed] at hnone
    split at hnone
    · -- the name was passed before: the walk has come round to classes that it has seen
      rename_i hpassed
      exact w.named parent hpassed s hs
    · simp [hnone] at hs
  | case4 classes d hd parent hext super hsuper ih =>
    rw [← hun, findClass_unpassed] at hsuper
    split at hsuper
    · simp at hsuper
    have habove : m.superclass? d = some super := (superclass?_of_extends hext).trans hsuper
    have hrest := ih (parent :: passed) (d :: seen) (w.step hd hext hsuper)
      (by rw [← hun, strikeOff_unpassed])
    cases hr : inherited pick (strikeOff classes parent) super with
    | some r =>
      rw [hr] at hrest
      exact isNearest_above hd habove hrest
    | none =>
      rw [hr] at hrest
      exact none_above hd habove hrest

theorem unpassed_nil (classes : List ClassDecl) : unpassed classes [] = classes := by
  simp [unpassed]

def Manifest.Inherits (m : Manifest) (pick : ClassDecl → Option α) (d : ClassDecl)
    (record : Option α) : Prop :=
  (∀ r, record = some r ↔ m.IsNearest pick d r) ∧
    (record = none ↔ ∀ k c, m.above? d k = some c → pick c = none)

theorem isNearest_unique {r r' : α} (h : m.IsNearest pick d r) (h' : m.IsNearest pick d r') :
    r = r' := by
  obtain ⟨k, s, hs, hr, hbelow⟩ := h
  obtain ⟨k', s', hs', hr', hbelow'⟩ := h'
  rcases Nat.lt_trichotomy k k' with hk | rfl | hk
  · simp [hbelow' k hk s hs] at hr
  · obtain rfl : s = s' := Option.some.inj (hs.symm.trans hs')
    exact Option.some.inj (hr.symm.trans hr')
  · simp [hbelow k' hk s' hs'] at hr'

theorem inherits_inherited (m : Manifest) (pick : ClassDecl → Option α) (d : ClassDecl) :
    m.Inherits pick d (inherited pick m.classes d) := by
  have h := inherited_unpassed [] [] (Walk.start d : Walk pick m [] [] d)
  rw [unpassed_nil] at h
  cases hr : inherited pick m.classes d with
  | some r =>
    rw [hr] at h
    refine ⟨fun r' => ⟨fun heq => Option.some.inj heq ▸ h, fun h' => ?_⟩, ?_⟩
    · rw [isNearest_unique h h']
    · obtain ⟨k, s, hs, hsr, -⟩ := h
      refine ⟨fun heq => by simp at heq, fun hall => ?_⟩
      simp [hall k s hs] at hsr
  | none =>
    rw [hr] at h
    refine ⟨fun r => ⟨fun heq => by simp at heq, ?_⟩, fun _ => h, fun _ => rfl⟩
    rintro ⟨k, s, hs, hsr, -⟩
    simp [h k s hs] at hsr

theorem findClass_map {f : ClassDecl → ClassDecl} (hname : ∀ c, (f c).name = c.name)
    (classes : List ClassDecl) (name : String) :
    findClass (classes.map f) name = (findClass classes name).map f := by
  rw [findClass, ← List.map_reverse, List.find?_map]
  simp only [Function.comp_def, hname]
  rfl

theorem strikeOff_map {f : ClassDecl → ClassDecl} (hname : ∀ c, (f c).name = c.name)
    (classes : List ClassDecl) (name : String) :
    strikeOff (classes.map f) name = (strikeOff classes name).map f := by
  rw [strikeOff, List.filter_map]
  simp only [Function.comp_def, hname]
  rfl

theorem inherited_own {r : α} (hd : pick d = some r) (classes : List ClassDecl) :
    inherited pick classes d = some r := by
  rw [inherited, hd]

theorem inherited_root (hd : pick d = none) (hext : d.extends? = none)
    (classes : List ClassDecl) : inherited pick classes d = none := by
  rw [inherited, hd, hext]

theorem inherited_unknown {parent : String} {classes : List ClassDecl} (hd : pick d = none)
    (hext : d.extends? = some parent) (hnone : findClass classes parent = none) :
    inherited pick classes d = none := by
  rw [inherited, hd, hext]
  dsimp only
  split
  · rfl
  · simp_all

theorem inherited_super {parent : String} {super : ClassDecl} {classes : List ClassDecl}
    (hd : pick d = none) (hext : d.extends? = some parent)
    (hsuper : findClass classes parent = some super) :
    inherited pick classes d = inherited pick (strikeOff classes parent) super := by
  rw [inherited, hd, hext]
  dsimp only
  split
  · simp_all
  · simp_all

theorem inherited_map {f : ClassDecl → ClassDecl} (hname : ∀ c, (f c).name = c.name)
    (hext : ∀ c, (f c).extends? = c.extends?) (hpick : ∀ c, pick (f c) = pick c)
    (classes : List ClassDecl) (d : ClassDecl) :
    inherited pick (classes.map f) (f d) = inherited pick classes d := by
  fun_induction inherited pick classes d with
  | case1 classes d r hr => exact inherited_own ((hpick d).trans hr) _
  | case2 classes d hd hroot =>
    exact inherited_root ((hpick d).trans hd) ((hext d).trans hroot) _
  | case3 classes d hd parent hparent hnone =>
    refine inherited_unknown ((hpick d).trans hd) ((hext d).trans hparent) ?_
    rw [findClass_map hname, hnone]
    rfl
  | case4 classes d hd parent hparent super hsuper ih =>
    have hsuper' : findClass (classes.map f) parent = some (f super) := by
      rw [findClass_map hname, hsuper]
      rfl
    rw [inherited_super ((hpick d).trans hd) ((hext d).trans hparent) hsuper',
      strikeOff_map hname, ih]

theorem elements_of_roots (h : ∀ d ∈ m.classes, d.extends? = none) :
    m.elements = m.classes.map fun d =>
      { name := d.name
        kind := d.kind
        isAbstract := d.isAbstract
        common := d.common
        service := d.service
        dataSource := d.dataSource } := by
  have hown : ∀ {β : Type} (pick : ClassDecl → Option β), ∀ d ∈ m.classes,
      inherited pick m.classes d = pick d := by
    intro β pick d hd
    cases hpick : pick d with
    | some r => exact inherited_own hpick m.classes
    | none => exact inherited_root hpick (h d hd) m.classes
  apply List.map_congr_left
  intro d hd
  rw [hown _ d hd, hown _ d hd, hown _ d hd]

def ClassDecl.withRecords (common service : ClassDecl → Option ServiceRecord)
    (dataSource : ClassDecl → Option DataSourceRecord) (d : ClassDecl) : ClassDecl :=
  { d with common := common d, service := service d, dataSource := dataSource d }

def Manifest.withRecords (m : Manifest) (common service : ClassDecl → Option ServiceRecord)
    (dataSource : ClassDecl → Option DataSourceRecord) : Manifest where
  classes := m.classes.map (ClassDecl.withRecords common service dataSource)

theorem map_inherited_withRecords (m : Manifest) (pick : ClassDecl → Option α)
    (common service : ClassDecl → Option ServiceRecord)
    (dataSource : ClassDecl → Option DataSourceRecord)
    (hpick : ∀ c, pick (c.withRecords common service dataSource) = pick c) :
    (m.withRecords common service dataSource).classes.map
        (inherited pick (m.withRecords common service dataSource).classes) =
      m.classes.map (inherited pick m.classes) := by
  rw [Manifest.withRecords, List.map_map]
  apply List.map_congr_left
  intro d _
  exact inherited_map (f := ClassDecl.withRecords common service dataSource) (fun _ => rfl)
    (fun _ => rfl) hpick m.classes d

/-- Every element has the name, kind and flag of its declaration and, of each kind, the record of
the nearest class that has one. None of the three depends on the records of the other kinds. -/
theorem elements_inherit_nearest (m : Manifest) :
    m.elements.length = m.classes.length ∧
      (∀ i : Fin m.classes.length, ∃ e, m.elements[i.val]? = some e ∧
        e.name = m.classes[i].name ∧ e.kind = m.classes[i].kind ∧
        e.isAbstract = m.classes[i].isAbstract ∧
        m.Inherits (·.common) m.classes[i] e.common ∧
        m.Inherits (·.service) m.classes[i] e.service ∧
        m.Inherits (·.dataSource) m.classes[i] e.dataSource) ∧
      ∀ common service dataSource,
        (m.withRecords (·.common) service dataSource).elements.map (·.common) =
          m.elements.map (·.common) ∧
        (m.withRecords common (·.service) dataSource).elements.map (·.service) =
          m.elements.map (·.service) ∧
        (m.withRecords common service (·.dataSource)).elements.map (·.dataSource) =
          m.elements.map (·.dataSource) := by
  refine ⟨by simp [Manifest.elements], fun i => ?_, fun common service dataSource => ?_⟩
  · refine ⟨_, by rw [Manifest.elements, List.getElem?_map, List.getElem?_eq_getElem i.isLt]; rfl,
      rfl, rfl, rfl, ?_, ?_, ?_⟩ <;> exact inherits_inherited m _ _
  · simp only [Manifest.elements, List.map_map]
    exact ⟨map_inherited_withRecords m (·.common) (·.common) service dataSource fun _ => rfl,
      map_inherited_withRecords m (·.service) common (·.service) dataSource fun _ => rfl,
      map_inherited_withRecords m (·.dataSource) common service (·.dataSource) fun _ => rfl⟩

end ServiceMetadata
