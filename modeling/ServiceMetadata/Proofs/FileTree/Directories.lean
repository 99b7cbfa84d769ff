import ServiceMetadata.Proofs.FileTree.Places

/-!
# What making directories changes

Making a directory together with those above it adds directories that the path leads through, where
nothing was, and changes nothing else, whether it succeeds or not.
-/
namespace ServiceMetadata

namespace Path

theorem slash_not_mem_splitSlash {s : List Char} {name : Name} (h : name ∈ splitSlash s) :
    '/' ∉ name := by
  induction s generalizing name with
  | nil => simp_all [splitSlash]
  | cons c s ih =>
    rw [splitSlash] at h
    split at h
    · rcases List.mem_cons.1 h with rfl | h
      · simp
      · exact ih h
    · rename_i hc
      split at h
      · exact absurd ‹_› (splitSlash_ne_nil s)
      · rename_i first others hsplit
        rcases List.mem_cons.1 h with rfl | h
        · have hfirst : '/' ∉ first := ih (hsplit ▸ List.mem_cons_self)
          simp [hfirst, Ne.symm hc]
        · exact ih (hsplit ▸ List.mem_cons_of_mem _ h)

def PlainNames (names : List Name) : Prop := ∀ name ∈ names, name ≠ [] ∧ '/' ∉ name

theorem plainNames_names (path : String) : PlainNames (names path) := by
  intro name hname
  obtain ⟨hmem, hne⟩ := List.mem_filter.1 hname
  exact ⟨by simpa using hne, slash_not_mem_splitSlash hmem⟩

theorem splitSlash_intercalate {ns : List Name} (hne : ns ≠ []) (h : PlainNames ns) :
    splitSlash (List.intercalate ['/'] ns) = ns := by
  induction ns with
  | nil => exact absurd rfl hne
  | cons name ns ih =>
    have hname := (h name List.mem_cons_self).2
    cases ns with
    | nil => simpa using splitSlash_name hname
    | cons name' ns =>
      have hrest := ih (List.cons_ne_nil _ _) fun n hn => h n (List.mem_cons_of_mem _ hn)
      rw [List.intercalate_cons_cons, List.append_assoc, List.singleton_append,
        splitSlash_append_slash, splitSlash_name hname, hrest]
      rfl

theorem toList_ofNames (absolute : Bool) (ns : List Name) :
    (ofNames absolute ns).toList =
      (if absolute then ['/'] else []) ++ List.intercalate ['/'] ns := by
  simp [ofNames]

theorem names_ofNames (absolute : Bool) {ns : List Name} (hne : ns ≠ []) (h : PlainNames ns) :
    names (ofNames absolute ns) = ns := by
  have hall : ns.filter (· ≠ []) = ns :=
    List.filter_eq_self.2 fun n hn => by simpa using (h n hn).1
  have hsplit := splitSlash_intercalate hne h
  rw [names, toList_ofNames]
  cases absolute with
  | false => simpa [hsplit] using hall
  | true => simpa [splitSlash, hsplit] using hall

theorem isAbsolute_ofNames (absolute : Bool) {ns : List Name} (hne : ns ≠ [])
    (h : PlainNames ns) : isAbsolute (ofNames absolute ns) = absolute := by
  rw [isAbsolute, toList_ofNames]
  cases absolute with
  | true => simp
  | false =>
    obtain ⟨name, ns, rfl⟩ := List.exists_cons_of_ne_nil hne
    obtain ⟨hname, hslash⟩ := h name List.mem_cons_self
    obtain ⟨c, s, rfl⟩ := List.exists_cons_of_ne_nil hname
    have hc : c ≠ '/' := fun heq => hslash (heq ▸ List.mem_cons_self)
    cases ns <;> simp [hc]

theorem lead_filter_here (place : Location) (ns : List Name) :
    lead place (ns.filter (· ≠ here)) = lead place ns := by
  induction ns generalizing place with
  | nil => rfl
  | cons name ns ih =>
    by_cases hhere : name = here
    · rw [List.filter_cons_of_neg (by simpa using hhere), lead_cons, step, if_pos hhere, ih]
    · rw [List.filter_cons_of_pos (by simpa using hhere), lead_cons, lead_cons, ih]

theorem exists_take_filter {α : Type} (p : α → Bool) (l : List α) (k : Nat) :
    ∃ j, (l.filter p).take k = (l.take j).filter p := by
  induction l generalizing k with
  | nil => exact ⟨0, by simp⟩
  | cons a l ih =>
    by_cases ha : p a = true
    · cases k with
      | zero => exact ⟨0, by simp⟩
      | succ k =>
        obtain ⟨j, hj⟩ := ih k
        exact ⟨j + 1, by simp [List.filter_cons_of_pos ha, hj]⟩
    · obtain ⟨j, hj⟩ := ih k
      exact ⟨j + 1, by simp [List.filter_cons_of_neg ha, hj]⟩

theorem exists_lead_take_components (place : Location) (path : String) (k : Nat) :
    ∃ j, lead place ((components path).take k) = lead place ((names path).take j) := by
  unfold components
  split
  · rename_i hnames
    exact ⟨0, by simp⟩
  · rename_i first rest hnames
    rw [hnames]
    dsimp only
    split
    · rename_i hfirst
      rw [Bool.and_eq_true, decide_eq_true_iff] at hfirst
      obtain ⟨j, hj⟩ := exists_take_filter (· ≠ here) rest k
      refine ⟨j + 1, ?_⟩
      rw [hj, lead_filter_here, List.take_succ_cons, lead_cons, step, if_pos hfirst.1]
    · cases k with
      | zero => exact ⟨0, rfl⟩
      | succ k =>
        obtain ⟨j, hj⟩ := exists_take_filter (· ≠ here) rest k
        refine ⟨j + 1, ?_⟩
        rw [List.take_succ_cons, List.take_succ_cons, hj, lead_cons, lead_cons, lead_filter_here]

theorem plainNames_components (path : String) : PlainNames (components path) := by
  have hnames := plainNames_names path
  intro name hname
  unfold components at hname
  split at hname
  · simp at hname
  · rename_i first rest hfirst
    dsimp only at hname
    refine hnames name (hfirst ▸ ?_)
    split at hname
    · exact List.mem_cons_of_mem _ (List.mem_filter.1 hname).1
    · rcases List.mem_cons.1 hname with rfl | hname
      · exact List.mem_cons_self
      · exact List.mem_cons_of_mem _ (List.mem_filter.1 hname).1

end Path

namespace FileTree

variable {t t' t₁ : FileTree} {place l : Location} {path root : String}
  {new : Location → Prop}

def LeadsThrough (t : FileTree) (path : String) (l : Location) : Prop :=
  ∃ k, l = Path.lead (t.startOf path) ((Path.names path).take k)

theorem leadsThrough_placeOf (t : FileTree) (path : String) :
    t.LeadsThrough path (t.placeOf path) :=
  ⟨(Path.names path).length, by rw [List.take_length, placeOf]⟩

theorem leadsThrough_parent {parent : String} (h : parent ∈ Path.parents path) :
    t.LeadsThrough path (t.placeOf parent) := by
  obtain ⟨i, hi, rfl⟩ := List.mem_map.1 h
  have hlt : i < (Path.components path).length - 1 := by simpa using hi
  have hne : (Path.components path).take (i + 1) ≠ [] := by
    apply List.ne_nil_of_length_pos
    rw [List.length_take]
    omega
  have hplain : Path.PlainNames ((Path.components path).take (i + 1)) :=
    fun n hn => Path.plainNames_components path n (List.mem_of_mem_take hn)
  rw [LeadsThrough, placeOf, Path.names_ofNames _ hne hplain, startOf,
    Path.isAbsolute_ofNames _ hne hplain]
  exact Path.exists_lead_take_components _ path (i + 1)

/-- The trees differ only in directories that are new at some of the places `new`. -/
structure AddsDirectories (new : Location → Prop) (t t' : FileTree) : Prop where
  current : t'.current = t.current
  entry : ∀ l, t'.entry? l = t.entry? l ∨
    new l ∧ t.entry? l = none ∧ t'.entry? l = some .directory

theorem AddsDirectories.refl : AddsDirectories new t t := ⟨rfl, fun _ => .inl rfl⟩

theorem AddsDirectories.trans (h : AddsDirectories new t t₁) (h' : AddsDirectories new t₁ t') :
    AddsDirectories new t t' := by
  refine ⟨h'.current.trans h.current, fun l => ?_⟩
  rcases h.entry l with hl | ⟨hnew, hnone, hdir⟩
  · rw [← hl]
    exact h'.entry l
  · rcases h'.entry l with hl | ⟨-, hnone', -⟩
    · exact .inr ⟨hnew, hnone, hl.trans hdir⟩
    · rw [hdir] at hnone'
      simp at hnone'

theorem AddsDirectories.file_iff (h : AddsDirectories new t t') (bytes : ByteArray) :
    t'.entry? l = some (.file bytes) ↔ t.entry? l = some (.file bytes) := by
  rcases h.entry l with hl | ⟨-, hnone, hdir⟩
  · rw [hl]
  · simp [hnone, hdir]

theorem makeDirectory_eq_ok :
    t.makeDirectory path = .ok t' ↔
      t.target .alreadyExists path = .ok (t.placeOf path) ∧ t.entry? (t.placeOf path) = none ∧
        t' = t.put (t.placeOf path) .directory := by
  unfold makeDirectory
  cases htarget : t.target .alreadyExists path with
  | error err => simp [bind, Except.bind]
  | ok place =>
    obtain rfl := target_eq_placeOf htarget
    simp only [bind, Except.bind, pure, Except.pure, throw, throwThe, MonadExceptOf.throw]
    cases hentry : t.entry? (t.placeOf path) with
    | some e => simp
    | none => simp [eq_comm]

theorem placeOf_ne_nil (h : t.entry? (t.placeOf path) = none) : t.placeOf path ≠ [] :=
  fun hnil => by simp [hnil, FileTree.entry?] at h

theorem makeDirectory_adds (h : t.makeDirectory path = .ok t') (hnew : new (t.placeOf path)) :
    AddsDirectories new t t' := by
  obtain ⟨-, hnone, rfl⟩ := makeDirectory_eq_ok.1 h
  refine ⟨rfl, fun l => ?_⟩
  by_cases hl : l = t.placeOf path
  · subst hl
    exact .inr ⟨hnew, hnone, entry_put_self t _ (placeOf_ne_nil hnone)⟩
  · exact .inl (entry_put_ne t _ hl)

theorem makeInOrder_adds (t : FileTree) (paths : List String)
    (hnew : ∀ path ∈ paths, new (t.placeOf path)) :
    AddsDirectories new t (t.makeInOrder paths).1 := by
  induction paths generalizing t with
  | nil => exact .refl
  | cons path paths ih =>
    rw [makeInOrder]
    split
    · rename_i t₁ hmade
      have hstep := makeDirectory_adds hmade (hnew path List.mem_cons_self)
      refine hstep.trans (ih t₁ fun p hp => ?_)
      rw [placeOf_congr hstep.current]
      exact hnew p (List.mem_cons_of_mem _ hp)
    · split
      · exact ih t fun p hp => hnew p (List.mem_cons_of_mem _ hp)
      · exact .refl

theorem makeUpward_adds (t : FileTree) (missing paths : List String)
    (hmissing : ∀ path ∈ missing, new (t.placeOf path))
    (hnew : ∀ path ∈ paths, new (t.placeOf path)) :
    AddsDirectories new t (t.makeUpward missing paths).1 := by
  induction paths generalizing missing with
  | nil => exact makeInOrder_adds t missing hmissing
  | cons path paths ih =>
    have hrest : ∀ p ∈ paths, new (t.placeOf p) := fun p hp => hnew p (List.mem_cons_of_mem _ hp)
    rw [makeUpward]
    split
    · rename_i t₁ hmade
      have hstep := makeDirectory_adds hmade (hnew path List.mem_cons_self)
      refine hstep.trans (makeInOrder_adds t₁ missing fun p hp => ?_)
      rw [placeOf_congr hstep.current]
      exact hmissing p hp
    · refine ih (path :: missing) (fun p hp => ?_) hrest
      rcases List.mem_cons.1 hp with rfl | hp
      · exact hnew p List.mem_cons_self
      · exact hmissing p hp
    · split
      · exact makeInOrder_adds t missing hmissing
      · exact .refl

theorem makeDirectories_adds (t : FileTree) (root : String) :
    AddsDirectories (t.LeadsThrough root) t (t.makeDirectories root).1 := by
  unfold makeDirectories
  split
  · exact .refl
  · apply makeUpward_adds t [] _ (by simp)
    intro path hpath
    rcases List.mem_cons.1 hpath with rfl | hpath
    · exact leadsThrough_placeOf t path
    · exact leadsThrough_parent hpath

theorem isDirectory_iff : t.isDirectory path = true ↔ ∃ place, t.find path = .ok (place, .directory) := by
  unfold isDirectory
  split
  · rename_i place hfind
    simp [hfind]
  · rename_i hfind
    simpa using fun place => hfind place

theorem SameDirectories.isDirectory (h : SameDirectories t t') (hdir : t.isDirectory path = true) :
    t'.isDirectory path = true := by
  obtain ⟨place, hfind⟩ := isDirectory_iff.1 hdir
  obtain ⟨hcheck, hwalk, hentry, -⟩ := find_eq_ok.1 hfind
  refine isDirectory_iff.2 ⟨place, find_eq_ok.2 ⟨hcheck, ?_, (h.2 place).2 hentry, .inl rfl⟩⟩
  rw [h.walk_eq_ok, startOf_congr h.1]
  exact hwalk

theorem AddsDirectories.walk {start : Location} {names : List Path.Name}
    (h : AddsDirectories new t t') (hwalk : t.walk start names = .ok place) :
    t'.walk start names = .ok place := by
  induction names generalizing start with
  | nil => exact hwalk
  | cons name names ih =>
    obtain ⟨hstart, next, hnext, hrest⟩ := walk_cons_eq_ok.1 hwalk
    refine walk_cons_eq_ok.2 ⟨?_, next, hnext, ih hrest⟩
    rcases h.entry start with hsame | ⟨-, hnone, -⟩
    · rw [hsame, hstart]
    · simp [hstart] at hnone

theorem isDirectory_of_makeDirectory (h : t.makeDirectory path = .ok t') :
    t'.isDirectory path = true := by
  have hadds : AddsDirectories (fun _ => True) t t' := makeDirectory_adds h trivial
  obtain ⟨htarget, hnone, rfl⟩ := makeDirectory_eq_ok.1 h
  obtain ⟨hcheck, -, hwalk⟩ := target_eq_ok.1 htarget
  have hentry := entry_put_self t .directory (placeOf_ne_nil hnone)
  exact isDirectory_iff.2 ⟨_, find_eq_ok.2 ⟨hcheck, hadds.walk hwalk, hentry, .inl rfl⟩⟩

theorem target_of_walk {taken err : FileError} (hcheck : checkPath path = .ok ())
    (hwalk : t.walk (t.startOf path) (Path.names path) = .ok place)
    (h : t.target taken path = .error err) : err = taken := by
  unfold target at h
  rcases List.eq_nil_or_concat (Path.names path) with hnames | ⟨parent, name, hnames⟩
  · have heq : taken = err := by
      simpa [hcheck, hnames, bind, Except.bind, throw, throwThe, MonadExceptOf.throw] using h
    exact heq.symm
  · rw [List.concat_eq_append] at hnames
    obtain ⟨above, habove, hdir, hfollow⟩ := walk_concat_eq_ok.1 (hnames ▸ hwalk)
    by_cases hplain : name = Path.here ∨ name = Path.above
    · have heq : taken = err := by
        simpa [hcheck, hnames, habove, requireDirectory_eq_ok.2 hdir, hplain, bind, Except.bind,
          throw, throwThe, MonadExceptOf.throw] using h
      exact heq.symm
    · rw [not_or] at hplain
      simp [hcheck, hnames, habove, requireDirectory_eq_ok.2 hdir, hplain, hfollow, bind,
        Except.bind] at h

theorem makeDirectory_of_isDirectory (h : t.isDirectory path = true) :
    t.makeDirectory path = .error .alreadyExists := by
  obtain ⟨place, hfind⟩ := isDirectory_iff.1 h
  obtain ⟨hcheck, hwalk, hentry, -⟩ := find_eq_ok.1 hfind
  unfold makeDirectory
  cases htarget : t.target .alreadyExists path with
  | error err =>
    obtain rfl := target_of_walk hcheck hwalk htarget
    rfl
  | ok place' =>
    obtain rfl : place' = place := (target_eq_placeOf htarget).trans (walk_eq_lead hwalk).symm
    simp [hentry, bind, Except.bind, throw, throwThe, MonadExceptOf.throw]

theorem makeInOrder_cons_cases (t : FileTree) (path : String) (rest : List String) :
    (∃ t₁ : FileTree, t₁.isDirectory path = true ∧
      t.makeInOrder (path :: rest) = t₁.makeInOrder rest) ∨
      ∃ err, t.makeInOrder (path :: rest) = (t, some err) := by
  rw [makeInOrder]
  split
  · rename_i t₁ hmade
    exact .inl ⟨t₁, isDirectory_of_makeDirectory hmade, rfl⟩
  · rename_i err _
    split
    · rename_i hdir
      exact .inl ⟨t, (Bool.and_eq_true_iff.1 hdir).2, rfl⟩
    · exact .inr ⟨err, rfl⟩

theorem makeInOrder_isDirectory {above : String} (hdir : t.isDirectory above = true)
    (paths : List String) (hmade : (t.makeInOrder paths).2 = none) :
    (t.makeInOrder paths).1.isDirectory (paths.getLast?.getD above) = true := by
  induction paths generalizing t above with
  | nil => exact hdir
  | cons path rest ih =>
    rcases makeInOrder_cons_cases t path rest with ⟨t₁, hpath, heq⟩ | ⟨err, heq⟩
    · rw [heq] at hmade ⊢
      rw [List.getLast?_cons]
      exact ih hpath hmade
    · simp [heq] at hmade

theorem makeUpward_cons_cases (t : FileTree) (missing : List String) (path : String)
    (above : List String) :
    (∃ t₁ : FileTree, t₁.isDirectory path = true ∧
      t.makeUpward missing (path :: above) = t₁.makeInOrder missing) ∨
      t.makeUpward missing (path :: above) = t.makeUpward (path :: missing) above ∨
      ∃ err, t.makeUpward missing (path :: above) = (t, some err) := by
  rw [makeUpward]
  split
  · rename_i t₁ hmade
    exact .inl ⟨t₁, isDirectory_of_makeDirectory hmade, rfl⟩
  · exact .inr (.inl rfl)
  · rename_i err _ _
    split
    · rename_i hdir
      exact .inl ⟨t, (Bool.and_eq_true_iff.1 hdir).2, rfl⟩
    · exact .inr (.inr ⟨err, rfl⟩)

theorem makeUpward_isDirectory (t : FileTree) (missing : List String) (path : String)
    (above : List String) (hmade : (t.makeUpward missing (path :: above)).2 = none) :
    (t.makeUpward missing (path :: above)).1.isDirectory (missing.getLast?.getD path) = true := by
  induction above generalizing missing path with
  | nil =>
    rcases makeUpward_cons_cases t missing path [] with ⟨t₁, hpath, heq⟩ | heq | ⟨err, heq⟩
    · rw [heq] at hmade ⊢
      exact makeInOrder_isDirectory hpath missing hmade
    · rw [heq, makeUpward] at hmade ⊢
      rcases makeInOrder_cons_cases t path missing with ⟨t₁, hpath, heq⟩ | ⟨err, heq⟩
      · rw [heq] at hmade ⊢
        exact makeInOrder_isDirectory hpath missing hmade
      · simp [heq] at hmade
    · simp [heq] at hmade
  | cons next above ih =>
    rcases makeUpward_cons_cases t missing path (next :: above) with
      ⟨t₁, hpath, heq⟩ | heq | ⟨err, heq⟩
    · rw [heq] at hmade ⊢
      exact makeInOrder_isDirectory hpath missing hmade
    · rw [heq] at hmade ⊢
      simpa [List.getLast?_cons] using ih (path :: missing) next hmade
    · simp [heq] at hmade

/-- A directory has been made, together with those that were missing on the way to it, and nothing
else has changed. -/
structure DirectoryMade (t : FileTree) (path : String) (t' : FileTree) : Prop where
  adds : AddsDirectories (t.LeadsThrough path) t t'
  isDirectory : Path.components path ≠ [] → t'.isDirectory path = true

theorem directoryMade (hmade : t.makeDirectories path = (t', none)) : t.DirectoryMade path t' := by
  have hadds := makeDirectories_adds t path
  rw [hmade] at hadds
  refine ⟨hadds, fun hcomponents => ?_⟩
  have hempty : path ≠ "" := by
    rintro rfl
    exact hcomponents (by decide)
  rw [makeDirectories, if_neg (by simp [hempty, hcomponents])] at hmade
  simpa [hmade] using makeUpward_isDirectory t [] path (Path.parents path) (by rw [hmade])

/-- A directory that was made together with those above it is there, and making it once more changes
nothing, even after files have been written. -/
theorem makeDirectories_again (hmade : (t.makeDirectories path).2 = none)
    (hsame : SameDirectories (t.makeDirectories path).1 t') :
    t'.makeDirectories path = (t', none) := by
  unfold makeDirectories at hmade hsame ⊢
  split
  · rfl
  · rename_i hroot
    rw [if_neg hroot] at hmade hsame
    have hthere : t'.isDirectory path = true :=
      hsame.isDirectory (makeUpward_isDirectory t [] path _ hmade)
    rw [makeUpward, makeDirectory_of_isDirectory hthere]
    simp [hthere, makeInOrder]

end FileTree
end ServiceMetadata
