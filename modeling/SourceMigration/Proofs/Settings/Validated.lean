import Mathlib.Data.List.Nodup
import SourceMigration.StandIn.Pydantic

/-!
# SourceMigration — what is relied on of the validation

The library that validates settings is no part of this project. What is relied on is what it documents of a
setting that is declared as a list of texts: it takes a list of texts and nothing else, is left at its default
where no entry names it, and is reported only where it has an entry that is no such list.

## Results

* `LawfulPydantic` — the library keeps to what is said of it.
-/

namespace SourceMigration

/-- Lists of texts are validated as they are declared. -/
class LawfulPydantic [Pydantic] : Prop where
  /-- The value of the setting is the list in its entry, or the default. -/
  accepted : ∀ {ds : List SettingDeclaration} {entries : List (String × SettingValue)}
    {value : String → ValidValue}, (ds.map (·.name)).Nodup → Pydantic.validate ds entries = .ok value →
    ∀ {name : String} {standard : List String}, ⟨name, .texts standard⟩ ∈ ds →
      (entries.lookup name).getD (.list (standard.map .text)) = .list ((value name).asTexts.map .text)
  /-- Where the setting is at fault, its entry is no list of texts. -/
  refused : ∀ {ds : List SettingDeclaration} {entries : List (String × SettingValue)}
    {faults : List SettingFault}, (ds.map (·.name)).Nodup → Pydantic.validate ds entries = .error faults →
    ∀ {fault : SettingFault} {standard : List String}, fault ∈ faults →
    ⟨fault.setting, .texts standard⟩ ∈ ds →
      ∃ v, entries.lookup fault.setting = some v ∧ ∀ texts : List String, v ≠ .list (texts.map .text)

namespace StandIn

variable {ds : List SettingDeclaration} {d : SettingDeclaration} {entries : List (String × SettingValue)}

/-- What the value of a list of texts is. -/
theorem accepted_texts {standard : List String} {entry : Option SettingValue} {v : ValidValue}
    (h : readValue (.texts standard) entry = .ok v) :
    entry.getD (.list (standard.map .text)) = .list (v.asTexts.map .text) := by
  cases entry with
  | none =>
    cases h
    rfl
  | some v' =>
    rw [readValue] at h
    cases hRead : readTexts v' with
    | error faults => simp [hRead, Except.map] at h
    | ok texts =>
      rw [hRead] at h
      cases h
      exact texts_eq_ok_iff.mp hRead

theorem exists_of_refused {standard : List String} {entry : Option SettingValue} {faults : ValueFaults}
    (h : readValue (.texts standard) entry = .error faults) :
    ∃ v, entry = some v ∧ ∀ texts : List String, v ≠ .list (texts.map .text) := by
  cases entry with
  | none => cases h
  | some v =>
    refine ⟨v, rfl, ?_⟩
    rintro texts rfl
    rw [readValue, texts_eq_ok_iff.mpr rfl] at h
    cases h

/-- Each value is that of its own setting. -/
theorem value_of_validate {value : String → ValidValue} (hNodup : (ds.map (·.name)).Nodup)
    (h : validate ds entries = .ok value) (hd : d ∈ ds) :
    readValue d.type (entries.lookup d.name) = .ok (value d.name) := by
  induction ds generalizing value with
  | nil => cases hd
  | cons e ds ih =>
    rw [List.map_cons, List.nodup_cons] at hNodup
    rw [validate] at h
    split at h
    · rename_i v rest hRead hRest
      obtain rfl := Except.ok.inj h
      rcases List.mem_cons.mp hd with rfl | hd
      · simpa using hRead
      · have hOther : d.name ≠ e.name := fun hEq => hNodup.1 (hEq ▸ List.mem_map_of_mem hd)
        simpa [hOther] using ih hNodup.2 hRest hd
    all_goals cases h

/-- A fault is that of the setting that it names. -/
theorem refused_of_validate {faults : List SettingFault} {fault : SettingFault}
    (h : validate ds entries = .error faults) (hFault : fault ∈ faults) :
    ∃ d ∈ ds, d.name = fault.setting ∧ ∃ why, readValue d.type (entries.lookup d.name) = .error why := by
  induction ds generalizing faults with
  | nil => cases h
  | cons e ds ih =>
    have hLater (more : List SettingFault) (hMore : validate ds entries = .error more) (hMem : fault ∈ more) :
        ∃ d ∈ e :: ds, d.name = fault.setting ∧
        ∃ why, readValue d.type (entries.lookup d.name) = .error why := by
      obtain ⟨d, hd, hRefused⟩ := ih hMore hMem
      exact ⟨d, List.mem_cons_of_mem e hd, hRefused⟩
    rw [validate] at h
    split at h
    · cases h
    · rename_i hRest
      obtain rfl := Except.error.inj h
      exact hLater _ hRest hFault
    · rename_i why hRefused
      obtain rfl := Except.error.inj h
      rcases List.mem_append.mp hFault with hFault | hFault
      · obtain ⟨c, -, rfl⟩ := List.mem_map.mp hFault
        exact ⟨e, List.mem_cons_self, rfl, why, hRefused⟩
      · cases hRest : validate ds entries with
        | ok value => simp [hRest] at hFault
        | error more => exact hLater more hRest (by simpa [hRest] using hFault)

scoped instance : LawfulPydantic where
  accepted hNodup h _ _ hd := accepted_texts (value_of_validate hNodup h hd)
  refused hNodup h fault standard hFault hd := by
    obtain ⟨d, hd', hName, why, hRefused⟩ := refused_of_validate h hFault
    obtain rfl : d = ⟨fault.setting, .texts standard⟩ :=
      List.inj_on_of_nodup_map hNodup hd' hd hName
    exact exists_of_refused hRefused

end StandIn

end SourceMigration
