import Mathlib.Data.List.Induction
import ServiceMetadata.Proofs.Except
import ServiceMetadata.Proofs.Vocabulary.Indexes

/-!
# Histories of a vocabulary

A vocabulary that has been filled by insertions, extensions and loaded files is the table that these
insertions spell, one after the other: every name stands at the place of its first insertion with
the URI of its last. What a name or URI resolves to can be read off this table alone, since a lookup
by URI finds nothing but the URI that was looked up.
-/
namespace ServiceMetadata

namespace VocabularyFile

def listed : VocabularyFile → List VocabularyEntry
  | .list entries => entries
  | .table t => t.rows.map fun (name, uri) => { name, uri }

theorem vocabulary_eq_ok {file : VocabularyFile} {w : Vocabulary} (h : file.vocabulary = .ok w) :
    w = Vocabulary.ofEntries file.listed := by
  cases file with
  | list entries =>
    rw [vocabulary] at h
    split at h
    · simp at h
    · exact (Except.ok.inj h).symm
  | table t => exact (Except.ok.inj h).symm

def ofSymbols (symbols : List Text.Symbol) : Except Error VocabularyFile :=
  let reading := Json.readSymbolsAsNode symbols
  match reading.root.value 0 with
  | .error e => .error (.json (.spelling e))
  | .ok value =>
    match VocabularyFile.ofValue? value with
    | none => .error (.json (.data (.noVariant "VocabularyFile")))
    | some file => if reading.more then .error (.json (.spelling .trailingCharacters)) else .ok file

end VocabularyFile

namespace Vocabulary

variable {v w : Vocabulary} {e : VocabularyEntry} {log log' es : List VocabularyEntry}
  {name : String}

theorem ofSymbols_eq (symbols : List Text.Symbol) :
    ofSymbols symbols = (VocabularyFile.ofSymbols symbols).bind VocabularyFile.vocabulary := by
  unfold ofSymbols VocabularyFile.ofSymbols
  generalize Json.readSymbolsAsNode symbols = reading
  dsimp only
  cases reading.root.value 0 with
  | error e => rfl
  | ok value =>
    cases hfile : VocabularyFile.ofValue? value with
    | none =>
      simp only [hfile]
      rfl
    | some file =>
      simp only [hfile]
      cases reading.more <;> rfl

theorem load_eq_ok {t : FileTree} {path : String} (h : load t path = .ok w) :
    ∃ symbols file, VocabularyFile.ofSymbols symbols = .ok file ∧ file.vocabulary = .ok w := by
  unfold load at h
  split at h
  · simp at h
  · simp at h
  · rename_i place bytes hfind
    rw [ofBytes, ofSymbols_eq] at h
    cases hfile : VocabularyFile.ofSymbols (Text.symbols bytes) with
    | error err => simp [hfile, Except.bind] at h
    | ok file => exact ⟨_, file, hfile, by simpa [hfile, Except.bind] using h⟩

/-- The insertions from which a vocabulary has come, in their order. Laying one vocabulary over
another repeats the insertions of the upper one. -/
inductive History : Vocabulary → List VocabularyEntry → Prop
  | empty : History empty []
  | standard : History standard Standard.entries
  | loaded {symbols : List Text.Symbol} {file : VocabularyFile} {w : Vocabulary}
      (hfile : VocabularyFile.ofSymbols symbols = .ok file) (hw : file.vocabulary = .ok w) :
      History w file.listed
  | insert {v : Vocabulary} {log : List VocabularyEntry} (hv : History v log)
      (e : VocabularyEntry) : History (v.insert e) (log ++ [e])
  | extend {v w : Vocabulary} {log log' : List VocabularyEntry} (hv : History v log)
      (hw : History w log') : History (v.extend w) (log ++ log')

theorem Reachable.exists_history (h : Reachable v) : ∃ log, History v log := by
  induction h with
  | empty => exact ⟨[], .empty⟩
  | standard => exact ⟨Standard.entries, .standard⟩
  | insert _ e ih =>
    obtain ⟨log, hlog⟩ := ih
    exact ⟨_, hlog.insert e⟩
  | extend _ _ ihv ihw =>
    obtain ⟨log, hlog⟩ := ihv
    obtain ⟨log', hlog'⟩ := ihw
    exact ⟨_, hlog.extend hlog'⟩
  | extendFile _ hw ih =>
    obtain ⟨log, hlog⟩ := ih
    obtain ⟨symbols, file, hfile, hvocabulary⟩ := load_eq_ok hw
    exact ⟨_, hlog.extend (.loaded hfile hvocabulary)⟩

theorem History.indexed (h : History v log) : v.Indexed := by
  induction h with
  | empty => exact empty_indexed
  | standard => exact empty_indexed.insertAll _
  | loaded _ hw =>
    rw [VocabularyFile.vocabulary_eq_ok hw]
    exact empty_indexed.insertAll _
  | insert _ e ih => exact ih.insert e
  | extend _ _ ihv _ => exact ihv.insertAll _

def lastOf (log : List VocabularyEntry) (name : String) : Option VocabularyEntry :=
  log.reverse.find? (·.name = name)

theorem lastOf_append (log log' : List VocabularyEntry) (name : String) :
    lastOf (log ++ log') name = (lastOf log' name).or (lastOf log name) := by
  rw [lastOf, List.reverse_append, List.find?_append]
  rfl

theorem lastOf_concat (log : List VocabularyEntry) (e : VocabularyEntry) (name : String) :
    lastOf (log ++ [e]) name = if e.name = name then some e else lastOf log name := by
  rw [lastOf_append]
  by_cases h : e.name = name <;> simp [lastOf, h]

theorem lastOf_name (h : lastOf log name = some e) : e ∈ log ∧ e.name = name :=
  ⟨List.mem_reverse.1 (List.mem_of_find?_eq_some h), by simpa using List.find?_some h⟩

theorem lastOf_eq_none_iff : lastOf log name = none ↔ name ∉ log.map (·.name) := by
  simp [lastOf]

/-- A table that has every name of a log once, at the place of its first insertion and with its last
entry. -/
structure Tabulates (log es : List VocabularyEntry) : Prop where
  names : es.map (·.name) = (log.map (·.name)).eraseDups
  last : ∀ e ∈ es, lastOf log e.name = some e

theorem tabulates_nil : Tabulates [] [] where
  names := rfl
  last := by simp

theorem Tabulates.mem_names (h : Tabulates log es) :
    name ∈ es.map (·.name) ↔ name ∈ log.map (·.name) := by
  rw [h.names, List.mem_eraseDups]

theorem Tabulates.lastOf_eq (h : Tabulates log es) (name : String) :
    lastOf es name = lastOf log name := by
  cases hlast : lastOf es name with
  | none =>
    rw [lastOf_eq_none_iff, h.mem_names, ← lastOf_eq_none_iff] at hlast
    exact hlast.symm
  | some e =>
    obtain ⟨hmem, rfl⟩ := lastOf_name hlast
    exact (h.last e hmem).symm

theorem Tabulates.mem_iff (h : Tabulates log es) : e ∈ es ↔ lastOf log e.name = some e := by
  refine ⟨h.last e, fun hlast => ?_⟩
  rw [← h.lastOf_eq] at hlast
  exact (lastOf_name hlast).1

theorem eraseDups_concat (names : List String) (name : String) :
    (names ++ [name]).eraseDups =
      if name ∈ names then names.eraseDups else names.eraseDups ++ [name] := by
  rw [List.eraseDups_append]
  by_cases h : name ∈ names <;> simp [List.removeAll, h, List.eraseDups_cons]

theorem eraseDups_append_eraseDups (names names' : List String) :
    (names ++ names'.eraseDups).eraseDups = (names ++ names').eraseDups := by
  induction names' using List.reverseRecOn with
  | nil => rfl
  | append_singleton names' name ih =>
    rw [eraseDups_concat, ← List.append_assoc, eraseDups_concat]
    by_cases h : name ∈ names'
    · rw [if_pos h, if_pos (List.mem_append_right _ h), ih]
    · rw [if_neg h, ← List.append_assoc, eraseDups_concat, ih]
      simp [List.mem_eraseDups]

theorem Tabulates.insert (hv : v.Indexed) (h : Tabulates log v.entries) (e : VocabularyEntry) :
    Tabulates (log ++ [e]) (v.insert e).entries := by
  cases hplace : v.places.lookup e.name with
  | none =>
    have hnew : e.name ∉ v.entries.map (·.name) := by
      have hall := (hv.places_eq_none_iff e.name).1 hplace
      simpa using hall
    rw [insert_of_new hplace]
    refine ⟨?_, fun e' he' => ?_⟩
    · rw [List.map_append, h.names, List.map_append, List.map_singleton, eraseDups_concat,
        if_neg (h.mem_names.not.1 hnew)]
    · rw [lastOf_concat]
      rcases List.mem_append.1 he' with he' | he'
      · have hne : e.name ≠ e'.name := fun heq => hnew (heq ▸ List.mem_map_of_mem he')
        rw [if_neg hne, h.last e' he']
      · rw [List.mem_singleton.1 he', if_pos rfl]
  | some i =>
    obtain ⟨old, hi, hold⟩ := (hv.places_iff e.name i).1 hplace
    have hmem : e.name ∈ v.entries.map (·.name) :=
      hold ▸ List.mem_map_of_mem (List.mem_of_getElem? hi)
    -- the entry is exchanged where it stands, which leaves the names alone
    rw [insert_of_old hplace hi]
    refine ⟨?_, fun e' he' => ?_⟩
    · rw [map_name_set hi hold, h.names, List.map_append, List.map_singleton, eraseDups_concat,
        if_pos (h.mem_names.1 hmem)]
    · obtain ⟨j, hj⟩ := List.mem_iff_getElem?.1 he'
      rw [lastOf_concat]
      rcases (getElem?_set_iff hi).1 hj with ⟨-, rfl⟩ | ⟨hne, hj⟩
      · rw [if_pos rfl]
      · have hother : e.name ≠ e'.name := by
          intro heq
          have hplace' := (hv.places_iff e.name j).2 ⟨e', hj, heq.symm⟩
          exact hne (Option.some.inj (hplace'.symm.trans hplace))
        rw [if_neg hother, h.last e' (List.mem_of_getElem? hj)]

theorem Tabulates.insertAll (hv : v.Indexed) (h : Tabulates log v.entries)
    (es : List VocabularyEntry) : Tabulates (log ++ es) (v.insertAll es).entries := by
  induction es generalizing v log with
  | nil => simpa [insertAll] using h
  | cons e es ih =>
    have hstep := ih (hv.insert e) (h.insert hv e)
    rwa [List.append_assoc] at hstep

theorem Tabulates.replay (h : Tabulates (log ++ w.entries) es) (hw : Tabulates log' w.entries) :
    Tabulates (log ++ log') es where
  names := by
    rw [h.names, List.map_append, hw.names, eraseDups_append_eraseDups, ← List.map_append]
  last e he := by
    rw [lastOf_append, ← hw.lastOf_eq, ← lastOf_append]
    exact h.last e he

theorem History.tabulates (h : History v log) : Tabulates log v.entries := by
  induction h with
  | empty => exact tabulates_nil
  | standard => exact tabulates_nil.insertAll empty_indexed Standard.entries
  | loaded _ hw =>
    rw [VocabularyFile.vocabulary_eq_ok hw]
    exact tabulates_nil.insertAll empty_indexed _
  | insert hv e ih => exact ih.insert hv.indexed e
  | extend hv _ ihv ihw => exact (ihv.insertAll hv.indexed _).replay ihw

theorem Indexed.resolve_eq (hv : v.Indexed) (key : String) :
    v.resolve key = if isUri key then key else ((v.getByName key).map (·.uri)).getD key := by
  unfold resolve
  split
  · rfl
  · cases hname : v.getByName key with
    | some e => rfl
    | none =>
      cases huri : v.getByUri key with
      | none => rfl
      | some e => simpa using (hv.getByUri_uri huri).2

theorem History.getByName_eq (h : History v log) (name : String) :
    v.getByName name = lastOf log name := by
  ext e
  rw [h.indexed.getByName_iff, h.tabulates.mem_iff]
  constructor
  · rintro ⟨hlast, rfl⟩
    exact hlast
  · intro hlast
    obtain ⟨-, rfl⟩ := lastOf_name hlast
    exact ⟨hlast, rfl⟩

theorem Indexed.getByName_congr (hv : v.Indexed) (hw : w.Indexed)
    (h : ∀ e, e ∈ v.entries ↔ e ∈ w.entries) (name : String) :
    v.getByName name = w.getByName name := by
  ext e
  rw [hv.getByName_iff, hw.getByName_iff, h]

theorem Indexed.resolve_congr (hv : v.Indexed) (hw : w.Indexed)
    (h : ∀ e, e ∈ v.entries ↔ e ∈ w.entries) (key : String) : v.resolve key = w.resolve key := by
  rw [hv.resolve_eq, hw.resolve_eq, hv.getByName_congr hw h]

/-- The entries show of a history the first place and the last URI of each name, and what resolves
to what depends on the URIs alone. -/
theorem History.last_write_wins (h : History v log) :
    v.entries.map (·.name) = (log.map (·.name)).eraseDups ∧
      (∀ e ∈ v.entries, lastOf log e.name = some e) ∧
      (∀ key, v.resolve key =
        if isUri key then key else ((lastOf log key).map (·.uri)).getD key) ∧
      ∀ w log', History w log' → (∀ e, e ∈ v.entries ↔ e ∈ w.entries) →
        ∀ key, v.resolve key = w.resolve key := by
  refine ⟨h.tabulates.names, h.tabulates.last, fun key => ?_, fun w log' hw => ?_⟩
  · rw [h.indexed.resolve_eq, h.getByName_eq]
  · exact h.indexed.resolve_congr hw.indexed

def rowsOfFile : List VocabularyEntry := [⟨"bar", "urn:b"⟩, ⟨"text", "urn:t"⟩]

def afterFile : Vocabulary := (standard.insert ⟨"all", "urn:other"⟩).extend (ofEntries rowsOfFile)

theorem last_write_wins_after_file :
    History afterFile (Standard.entries ++ [⟨"all", "urn:other"⟩] ++ rowsOfFile) ∧
      afterFile.entries.map (·.name) = Standard.entries.map (·.name) ++ ["bar"] ∧
      afterFile.resolve "all" = "urn:other" ∧ afterFile.resolve "text" = "urn:t" ∧
      afterFile.resolve "http://vocab.lappsgrid.org/ns/allow#any" =
        "http://vocab.lappsgrid.org/ns/allow#any" := by
  have hfile : VocabularyFile.ofSymbols
      (Text.symbolsOfString "\x7b\"text\":\"urn:t\",\"bar\":\"urn:b\"\x7d") =
      .ok (.table (Text.SortedTable.ofRows [("text", "urn:t"), ("bar", "urn:b")])) :=
    toOption_eq_some_iff.1 (by decide +kernel)
  have h : History afterFile (Standard.entries ++ [⟨"all", "urn:other"⟩] ++ rowsOfFile) :=
    .extend (.insert .standard _) (.loaded hfile rfl)
  obtain ⟨hnames, -, hresolve, -⟩ := h.last_write_wins
  refine ⟨h, hnames.trans (by decide +kernel), ?_, ?_, ?_⟩
  · exact (hresolve _).trans (by decide +kernel)
  · exact (hresolve _).trans (by decide +kernel)
  · exact (hresolve _).trans (by decide +kernel)

end Vocabulary
end ServiceMetadata
