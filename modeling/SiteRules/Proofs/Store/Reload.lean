import SiteRules.Proofs.Store.Alike
import SiteRules.Proofs.Value.Equality
import SiteRules.Proofs.Value.Rebuild

/-!
# Saving and loading between writes

A script writes to a store and, between the writes, saves and loads it again, with the patterns
listed in the order of their writes or ranked. Loading numbers the patterns anew, so the store is
not the one that the writes alone would have given. But it stays like that one: it keeps the order
within each rank, and each later write comes last in both (`Mirrors.write`, `Mirrors.reload`).
Therefore it answers everything in the same way, in the end as after any step
(`runAll_answersAlike`).

The settings themselves are taken to be saved as they are (`Lasting`). This is so for all values
that are trees (`Value.rebuild_of_isTree`).
-/

namespace SiteRules.Store

/-! ## Scripts -/

/-- A step of a script: a write, or saving and loading. -/
inductive Step where
  | write (pattern key : Text) (value : Value)
  | reload (byRank : Bool)

/-- Whether a step writes. -/
def Step.isWrite : Step → Bool
  | write .. => true
  | reload _ => false

/-- The store that is loaded from the document of a store. -/
def reload (s : Sites) (byRank : Bool) : Checked Sites :=
  Document.read (Document.ofStore s byRank)

/-- What a step makes of a store. -/
def Step.run (s : Sites) : Step → Checked Sites
  | write pattern key value => .ok (s.merge pattern key value)
  | reload byRank => s.reload byRank

/-- What the steps of a script make of a store, one after the other. -/
def runAll (s : Sites) : List Step → Checked Sites
  | [] => .ok s
  | step :: rest => (step.run s).bind fun t => runAll t rest

/-- Two stores give the same answers to all questions for which the order of the writes matters only
within a rank. -/
structure AnswersAlike (s t : Sites) : Prop where
  resolveUrl_eq : ∀ source, s.resolveUrl source = t.resolveUrl source
  resolvePattern_eq : ∀ source, s.resolvePattern source = t.resolvePattern source
  get?_eq : ∀ pattern, s.get? pattern = t.get? pattern
  patterns_eq : s.patterns = t.patterns
  ranked_eq : s.ranked = t.ranked
  beq : (s == t) = true

/-! ## Settings that are saved as they are -/

/-- Saving leaves the settings of a store as they are. -/
def Lasting (s : Sites) : Prop :=
  ∀ p r k v, s.get? p = some r → r.get? k = some v → v.rebuild = v

theorem Lasting.merge {s : Sites} (h : s.Lasting) (p k : Text) {v : Value} (hv : v.rebuild = v) :
    (s.merge p k v).Lasting := by
  intro p' r k' v' hr hv'
  rw [get?_merge] at hr
  split at hr
  · -- the record that was written to
    cases hr
    rw [OrderedMap.get?_insert] at hv'
    split at hv'
    · cases hv'
      exact hv
    · -- the setting was there before, as a record without settings has no value
      cases hp : s.get? p with
      | none => simp [hp, OrderedMap.empty, OrderedMap.get?, OrderedMap.lookup] at hv'
      | some r => exact h p r k' v' hp (by simpa [hp] using hv')
  · exact h p' r k' v' hr hv'

/-- A store whose settings are saved as they are is loaded as the store of its own list. -/
theorem Tracks.reload_eq {s : Sites} {writes : List Text} (h : s.Tracks writes)
    (lasting : s.Lasting) (byRank : Bool) :
    s.reload byRank = .ok (ofRecords (s.listed byRank)) := by
  have hrecord : ∀ site ∈ s.listed byRank,
      (site.1, Document.mapRecord Value.rebuild site.2) = site := by
    intro site hsite
    rw [Document.mapRecord_eq_self fun k v => lasting site.1 site.2 k v (mem_listed.1 hsite)]
  rw [reload, Document.read_ofStore s byRank (h.nodup_listed byRank),
    List.map_congr_left hrecord, List.map_id']

/-! ## The store with reloads and the one without -/

/-- The store `s`, which has been saved and loaded, is like the store `t`, to which the same was
written. -/
structure Mirrors (tied : Text → Text → Prop) (s t : Sites) : Prop where
  left : ∃ writes, Built s writes
  right : ∃ writes, Built t writes
  lasting : s.Lasting
  alike : Alike tied s t

namespace Mirrors

variable {tied : Text → Text → Prop} {s t : Sites}

/-- A write is made to both stores. -/
theorem write (h : Mirrors tied s t) (p k : Text) {v : Value} (hv : v.rebuild = v) :
    Mirrors tied (s.merge p k v) (t.merge p k v) := by
  obtain ⟨writes, hs⟩ := h.left
  obtain ⟨writes', ht⟩ := h.right
  exact ⟨⟨_, hs.merge p k v⟩, ⟨_, ht.merge p k v⟩, h.lasting.merge p k hv,
    h.alike.merge hs.tracks ht.tracks p k v⟩

/-- Saving and loading succeeds. It is done to the first store only. -/
theorem reload (h : Mirrors tied s t) {byRank : Bool}
    (htied : byRank = true → ∀ p q, tied p q → SameRank p q) :
    ∃ s', s.reload byRank = .ok s' ∧ Mirrors tied s' t := by
  obtain ⟨writes, hs⟩ := h.left
  have hreload := hs.tracks.reload_eq h.lasting byRank
  have halike := hs.tracks.alike_ofRecords_listed htied
  refine ⟨_, hreload, ⟨_, .document hreload⟩, h.right, ?_, halike.trans h.alike⟩
  intro p r k v hr hv
  rw [halike.get?_eq] at hr
  exact h.lasting p r k v hr hv

/-- A script runs to its end, and so do its writes alone. -/
theorem runAll {script : List Step} (h : Mirrors tied s t)
    (hvalues : ∀ p k v, .write p k v ∈ script → v.rebuild = v)
    (htied : .reload true ∈ script → ∀ p q, tied p q → SameRank p q) :
    ∃ s' t', s.runAll script = .ok s' ∧ t.runAll (script.filter Step.isWrite) = .ok t' ∧
      Mirrors tied s' t' := by
  induction script generalizing s t with
  | nil => exact ⟨s, t, rfl, rfl, h⟩
  | cons step rest ih =>
    have hvalues' : ∀ p k v, .write p k v ∈ rest → v.rebuild = v :=
      fun p k v hmem => hvalues p k v (List.mem_cons_of_mem _ hmem)
    have htied' : .reload true ∈ rest → ∀ p q, tied p q → SameRank p q :=
      fun hmem => htied (List.mem_cons_of_mem _ hmem)
    cases step with
    | write p k v => exact ih (h.write p k (hvalues p k v List.mem_cons_self)) hvalues' htied'
    | reload byRank =>
      -- only the first store is loaded, and the script of the second one has no such step
      have hscope : byRank = true → ∀ p q, tied p q → SameRank p q :=
        fun hrank => htied (hrank ▸ List.mem_cons_self)
      obtain ⟨s₁, hs₁, h₁⟩ := h.reload hscope
      obtain ⟨s', t', hs', ht', h'⟩ := ih h₁ hvalues' htied'
      refine ⟨s', t', ?_, ht', h'⟩
      rw [Store.runAll, Step.run, hs₁]
      exact hs'

theorem answersAlike (h : Mirrors SameRank s t) : AnswersAlike s t := by
  obtain ⟨writes, hs⟩ := h.left
  obtain ⟨writes', ht⟩ := h.right
  have hs := hs.tracks
  have ht := ht.tracks
  exact ⟨h.alike.resolveUrl_eq hs ht, h.alike.resolvePattern_eq hs ht, h.alike.get?_eq,
    h.alike.patterns_eq hs ht, h.alike.ranked_eq hs ht, h.alike.beq⟩

end Mirrors

/-- A script runs to its end, and its store gives the same answers as the one that its writes alone
give. If the script saves in the order of the writes only, that order is the same, too. -/
theorem runAll_answersAlike {s : Sites} {writes : List Text} (built : Built s writes)
    (lasting : s.Lasting) {script : List Step}
    (lastingValues : ∀ p k v, .write p k v ∈ script → v.rebuild = v) :
    ∃ t u, s.runAll script = .ok t ∧ s.runAll (script.filter Step.isWrite) = .ok u ∧
      AnswersAlike t u ∧ (.reload true ∉ script → t.written = u.written) := by
  have hself : ∀ tied, Mirrors tied s s := fun tied =>
    ⟨⟨_, built⟩, ⟨_, built⟩, lasting, .refl s⟩
  obtain ⟨t, u, ht, hu, hmirrors⟩ := (hself SameRank).runAll lastingValues fun _ _ _ => id
  refine ⟨t, u, ht, hu, hmirrors.answersAlike, fun hunranked => ?_⟩
  -- without ranked saving, the order of the writes is kept between any two patterns
  obtain ⟨t', u', ht', hu', hmirrors'⟩ := (hself fun _ _ => True).runAll lastingValues
    fun hranked => absurd hranked hunranked
  cases ht.symm.trans ht'
  cases hu.symm.trans hu'
  obtain ⟨writes', ht⟩ := hmirrors'.left
  obtain ⟨writes'', hu⟩ := hmirrors'.right
  exact hmirrors'.alike.written_eq ht.tracks hu.tracks

/-- Two spellings of one pattern are written, the store being saved ranked after each write. -/
def spellings : List Step :=
  [.write (Text.ofString "http://b") (Text.ofString "zoom") (.int 1), .reload true,
    .write (Text.ofString "HTTP://b") (Text.ofString "zoom") (.int 2), .reload true]

/-- The store that the writes alone give. -/
def writtenSpellings : Sites :=
  (empty.merge (Text.ofString "http://b") (Text.ofString "zoom") (.int 1)).merge
    (Text.ofString "HTTP://b") (Text.ofString "zoom") (.int 2)

theorem lasting_empty : (empty : Sites).Lasting :=
  fun _ _ _ _ h => by cases h

theorem rebuild_of_mem_spellings (p k : Text) (v : Value) (h : .write p k v ∈ spellings) :
    v.rebuild = v := by
  refine Value.rebuild_of_isTree ?_
  simp only [spellings, List.mem_cons, reduceCtorEq, Step.write.injEq, false_or, List.not_mem_nil,
    or_false] at h
  rcases h with ⟨-, -, rfl⟩ | ⟨-, -, rfl⟩ <;> rfl

/-- The spelling that was written later still decides. -/
theorem runAll_answersAlike_spellings : Built (empty : Sites) [] ∧ (empty : Sites).Lasting ∧
    (∀ p k v, .write p k v ∈ spellings → v.rebuild = v) ∧
    ∃ t u, (empty : Sites).runAll spellings = .ok t ∧
      (empty : Sites).runAll (spellings.filter Step.isWrite) = .ok u ∧ AnswersAlike t u ∧
      (t.resolveUrl (Text.ofString "http://b")).map OrderedMap.entries =
        some [(Text.ofString "zoom", .int 2)] := by
  obtain ⟨t, u, ht, hu, hanswers, -⟩ :=
    runAll_answersAlike .empty lasting_empty rebuild_of_mem_spellings
  refine ⟨.empty, lasting_empty, rebuild_of_mem_spellings, t, u, ht, hu, hanswers, ?_⟩
  rw [hanswers.resolveUrl_eq]
  cases hu
  -- both spellings apply to the URL, and they stand in the order of the writes
  have hlayers : ∃ url, Url.parse? (Text.ofString "http://b") = some url ∧
      (writtenSpellings.layersFor url).Pairwise (fun a b => a.under b = true) ∧
      (overlaid ((writtenSpellings.layersFor url).map Layer.record)).map OrderedMap.entries =
        some [(Text.ofString "zoom", .int 2)] := ⟨_, rfl, by decide, rfl⟩
  obtain ⟨url, hurl, hsorted, hentries⟩ := hlayers
  rw [← resolveUrl_of_pairwise hurl hsorted] at hentries
  exact hentries

end SiteRules.Store
