import CorrelatedInput.Proofs.Settings.Text
import CorrelatedInput.Proofs.Storage.Directories
import CorrelatedInput.Terminal.Program
/-!
Settings in files. What was saved or printed is loaded again, and a file that somebody else wrote is
loaded as it is meant, or not at all.
-/
namespace CorrelatedInput.Settings

open Json

variable {s t : Store} {path text : String} {settings : Settings}

theorem contains_of_readText (h : s.readText path = .ok text) : s.contains path = true := by
  obtain ⟨_, look, _⟩ := of_bind_ok h
  rw [Store.contains, look]
  rfl

theorem loadFrom_of_readText (h : s.readText path = .ok text)
    (read : ofText text.toList = .ok settings) : loadFrom path s = .ok settings := by
  rw [loadFrom, if_pos (contains_of_readText h), h]
  simp only [read]

theorem load_eq (h : Home) (s : Store) :
    load h s = (loadFrom (location h) s).toOption.getD {} := by
  rw [load]
  split
  · cases loadFrom (location h) s <;> rfl
  · rename_i absent
    rw [loadFrom, if_neg absent]
    rfl

/-- A text that writes the settings of a draft, in objects, and perhaps others. -/
def Draft.WrittenAs (d : Draft) (text : String) : Prop :=
  ∃ ms depth cs after, d.In ms ∧ Written .skip depth (.value (.object ms)) cs ∧
    after.all isBlank = true ∧ text.toList = cs ++ after

theorem Draft.WrittenAs.loadFrom {d : Draft} (h : d.WrittenAs text)
    (holds : s.readText path = .ok text) : loadFrom path s = .ok d.completed := by
  obtain ⟨ms, depth, cs, after, given, written, blank, same⟩ := h
  apply loadFrom_of_readText holds
  rw [same]
  exact ofText_of_written given written blank

theorem save_holds (h : Home) (saved : (settings.save h).perform s = (.ok (), t)) :
    t.readText (location h) = .ok settings.toText := by
  obtain ⟨_, u, _, wrote⟩ := Access.of_perform_bind saved
  rw [Access.perform_writeText] at wrote
  split at wrote
  · rename_i place present found
    cases wrote
    obtain ⟨leads, holds⟩ := (Store.leads_of_fileAt found).putFile settings.toText.toUTF8
    exact leads.readText holds
  · cases wrote

theorem save_outcome (settings other : Settings) (h : Home) (s : Store) :
    ((settings.save h).perform s).1 = ((other.save h).perform s).1 := by
  simp only [save, Access.perform_bind, Access.perform_writeText]
  cases (Access.createParents (location h)).perform s with
  | mk outcome t =>
    cases outcome with
    | error => rfl
    | ok =>
      dsimp only
      cases t.fileAt (location h) <;> rfl

theorem save_vacant (settings : Settings) {h : Home} {names : List String} {name : String}
    (vacant : s.Vacant (location h) names name) :
    ((settings.save h).perform s).1 = .ok () := by
  obtain ⟨t, made, leads⟩ := vacant.createParents
  rw [save, Access.perform_bind, made]
  simp only [leads.writeText]

/-- What becomes of settings in files. Whether they can be saved depends on the files that are there
alone, and they can where nothing stands in the way; once they were saved they are loaded as they
were. What is printed for them is read as them from any file that holds it. A file with objects in
which some settings are written, in whatever order and layout and among whatever else, is read as
these and the defaults of all others. And whatever the standard file holds, or if it is not there,
what is loaded from it is what is read, or the defaults if nothing can be read. -/
theorem settings_survive (h : Home) :
    (∀ (settings other : Settings) (s : Store),
      ((settings.save h).perform s).1 = ((other.save h).perform s).1) ∧
    (∀ (settings : Settings) (s : Store) (names : List String) (name : String),
      s.Vacant (location h) names name → ((settings.save h).perform s).1 = .ok ()) ∧
    (∀ (settings : Settings) (s t : Store), (settings.save h).perform s = (.ok (), t) →
      load h t = settings ∧ loadFrom (location h) t = .ok settings) ∧
    (∀ (settings : Settings) (s : Store), ∃ text,
      Terminal.runSettings false settings h s = ⟨.printed text, s, 0⟩ ∧
        ∀ (path : String) (t : Store), t.readText path = .ok text →
          loadFrom path t = .ok settings) ∧
    (∀ (d : Draft) (text path : String) (s : Store), d.WrittenAs text →
      s.readText path = .ok text → loadFrom path s = .ok d.completed) ∧
    ∀ s : Store, load h s = (loadFrom (location h) s).toOption.getD {} := by
  refine ⟨fun settings other => save_outcome settings other h,
    fun settings s names name => save_vacant settings, ?_, ?_,
    fun d text path s written => written.loadFrom, load_eq h⟩
  · intro settings s t saved
    have read : ofText settings.toText.toList = .ok settings := by
      have none : ([] : List Char).all isBlank = true := rfl
      simpa using ofText_toText settings none
    have found := loadFrom_of_readText (save_holds h saved) read
    rw [load_eq, found]
    exact ⟨rfl, rfl⟩
  · intro settings s
    refine ⟨settings.toText ++ "\n", rfl, ?_⟩
    intro path t holds
    apply loadFrom_of_readText holds
    rw [String.toList_append]
    exact ofText_toText settings rfl

/-- Where there is nothing yet, settings are saved and loaded again, printed and read again; and of a
file with one setting and two unknown members the setting is read. -/
theorem settings_survive_from_nothing :
    let h : Home := ⟨some "/etc", none⟩
    let settings : Settings := { logging := { level := "\x22debug\x22\n", file := some "log" } }
    let d : Draft := { timing := some { clickDuration := some 40 } }
    let ms : List (String × Value) := [("theme", .array [.null]),
      ("interaction", .object [("theme", .text "dark"), ("click_duration_ms", .integer 40)])]
    let text := (Value.object ms).compact
    (Store.empty.Vacant (location h) ["etc", "uidrive"] "config.json" ∧
      ∃ t, (settings.save h).perform Store.empty = (.ok (), t) ∧ load h t = settings) ∧
    (∃ printed t, Terminal.runSettings false settings h Store.empty =
        ⟨.printed printed, Store.empty, 0⟩ ∧
      t.readText "draft" = .ok printed ∧ loadFrom "draft" t = .ok settings) ∧
    d.WrittenAs text ∧ ∃ t, t.readText "draft" = .ok text ∧
      loadFrom "draft" t = .ok { timing := { clickDuration := 40 } } := by
  intro h settings d ms text
  obtain ⟨_, saves, survives, prints, drafts, _⟩ := settings_survive h
  have clear : ∀ d bytes, Store.empty.found d ≠ .file bytes := by
    intro d bytes
    rw [Store.found_empty]
    split <;> exact nofun
  have vacant : Store.empty.Vacant (location h) ["etc", "uidrive"] "config.json" := {
    possible := by decide +kernel
    steps := by decide +kernel
    plain := by decide +kernel
    short := by decide +kernel
    clear := fun d _ => clear d
    free := by
      rw [Store.found_empty, if_neg (by decide +kernel)]
      exact nofun }
  have draft : Store.empty.Vacant "draft" [] "draft" := {
    possible := by decide +kernel
    steps := by decide +kernel
    plain := by decide +kernel
    short := by decide +kernel
    clear := fun d _ => clear d
    free := by
      rw [Store.found_empty, if_neg (by decide +kernel)]
      exact nofun }
  have stored (text : String) : ∃ t : Store, t.readText "draft" = .ok text := by
    obtain ⟨u, _, leads⟩ := draft.createParents
    obtain ⟨leads, holds⟩ := leads.putFile text.toUTF8
    exact ⟨_, leads.readText holds⟩
  have given : d.In ms := ⟨⟨_, rfl, _, rfl, ⟨_, rfl, rfl⟩, rfl, rfl, rfl⟩, rfl⟩
  have fits : (Value.object ms).Fits (0 + 1 + 1) := by
    have word : IsWord 40 := isWord_natCast (show 40 < UInt64.size by decide)
    refine .object (List.forall_mem_cons.mpr ⟨.array ?_, List.forall_mem_singleton.mpr (.object ?_)⟩)
    · exact List.forall_mem_singleton.mpr .null
    · exact List.forall_mem_cons.mpr ⟨.text _, List.forall_mem_singleton.mpr (.integer word)⟩
  have written : d.WrittenAs text :=
    ⟨ms, _, _, [], given, fits.laid.written .skip, rfl, by simp [text, Value.compact]⟩
  refine ⟨⟨vacant, ?_⟩, ?_, written, ?_⟩
  · have saved := saves settings Store.empty _ _ vacant
    generalize done : (settings.save h).perform Store.empty = result at saved ⊢
    obtain ⟨outcome, t⟩ := result
    cases saved
    exact ⟨t, rfl, (survives settings Store.empty t done).1⟩
  · obtain ⟨printed, shown, read⟩ := prints settings Store.empty
    obtain ⟨t, holds⟩ := stored printed
    exact ⟨printed, t, shown, holds, read "draft" t holds⟩
  · obtain ⟨t, holds⟩ := stored text
    exact ⟨t, holds, drafts d text "draft" t written holds⟩

end CorrelatedInput.Settings
