import Mathlib.Data.Set.Basic

/-!
# Caches of page walks

A translation look-aside buffer holds pairs of a page and what some walk of
the page tables has found for it.  Entries may come and go at any time, but
they only leave for certain when their page is flushed.  The tables change
under the cache; `CoherentOff` says for which pages it may be behind.
-/

namespace Tlb

variable {Page Entry : Type}

/-- What a walk finds, `none` where it ends at an entry that is not present. -/
abbrev Walk (Page Entry : Type) := Page → Option Entry

abbrev Cache (Page Entry : Type) := Set (Page × Entry)

/-- Outside of the pages `stale` the cache says what the walk says. -/
def CoherentOff (stale : Set Page) (walk : Walk Page Entry)
    (cache : Cache Page Entry) : Prop :=
  ∀ page entry, (page, entry) ∈ cache → page ∉ stale → walk page = some entry

def Coherent (walk : Walk Page Entry) (cache : Cache Page Entry) : Prop :=
  ∀ page entry, (page, entry) ∈ cache → walk page = some entry

/-- Nothing is cached for the pages. -/
def Avoids (pages : Set Page) (cache : Cache Page Entry) : Prop :=
  ∀ page entry, (page, entry) ∈ cache → page ∉ pages

/-- Some pairs have left the cache, and some have been walked for pages that
are not `barred`. -/
def Refilled (barred : Set Page) (walk : Walk Page Entry)
    (cache cache' : Cache Page Entry) : Prop :=
  ∀ page entry, (page, entry) ∈ cache' →
    (page, entry) ∈ cache ∨ page ∉ barred ∧ walk page = some entry

def flush (page : Page) (cache : Cache Page Entry) : Cache Page Entry :=
  {pair | pair ∈ cache ∧ pair.1 ≠ page}

variable {walk walk' : Walk Page Entry} {cache cache' : Cache Page Entry}
  {stale stale' pages : Set Page} {page : Page}

theorem coherent_empty (walk : Walk Page Entry) : Coherent walk ∅ :=
  fun _ _ member => member.elim

theorem Coherent.off (coherent : Coherent walk cache) (stale : Set Page) :
    CoherentOff stale walk cache :=
  fun page entry member _ => coherent page entry member

theorem Coherent.refill (coherent : Coherent walk cache)
    (refilled : Refilled stale walk cache cache') : Coherent walk cache' := by
  intro page entry member
  rcases refilled page entry member with old | ⟨_, walked⟩
  · exact coherent page entry old
  · exact walked

theorem CoherentOff.refill (coherent : CoherentOff stale walk cache)
    (refilled : Refilled stale' walk cache cache') :
    CoherentOff stale walk cache' := by
  intro page entry member fresh
  rcases refilled page entry member with old | ⟨_, walked⟩
  · exact coherent page entry old fresh
  · exact walked

theorem Avoids.refill (avoids : Avoids pages cache)
    (refilled : Refilled pages walk cache cache') : Avoids pages cache' := by
  intro page entry member
  rcases refilled page entry member with old | ⟨outside, _⟩
  · exact avoids page entry old
  · exact outside

/-- The tables change for the stale pages only. -/
theorem CoherentOff.change (coherent : CoherentOff stale walk cache)
    (same : ∀ page, page ∉ stale → walk' page = walk page) :
    CoherentOff stale walk' cache := by
  intro page entry member fresh
  rw [same page fresh]
  exact coherent page entry member fresh

theorem Coherent.change (coherent : Coherent walk cache)
    (same : ∀ page, walk' page = walk page) : Coherent walk' cache := by
  intro page entry member
  rw [same page]
  exact coherent page entry member

theorem Coherent.avoids (coherent : Coherent walk cache)
    (absent : ∀ page ∈ pages, walk page = none) : Avoids pages cache := by
  intro page entry member inside
  have walked := coherent page entry member
  rw [absent page inside] at walked
  cases walked

theorem CoherentOff.flush (coherent : CoherentOff {page} walk cache) :
    Coherent walk (flush page cache) :=
  fun other entry member => coherent other entry member.1 member.2

end Tlb
