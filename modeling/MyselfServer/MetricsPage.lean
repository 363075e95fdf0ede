import MyselfServer.Exposition
import MyselfServer.Metrics

/-!
# The page of the metrics

What a scraper reads from the text that `renderPrometheus` makes: every family
once, under its help and kind, the counters as they are and the latencies to
six digits.
-/

namespace Myself.Util

open Text Exposition

inductive Shown where
  | count (n : Int)
  | measured (v : ℚ)

structure Reading where
  name : Bytes
  labels : List (Bytes × Bytes) := []
  shown : Shown

structure MetricFamily where
  name : String
  help : String
  kind : String
  readings : List Reading

namespace Shown

def text : Shown → Bytes
  | count n => toText n
  | measured v => Metrics.formatDouble v

end Shown

def Reading.sample (r : Reading) : Sample := ⟨r.name, r.labels, r.shown.text⟩

def MetricFamily.family (m : MetricFamily) : Family :=
  ⟨bytes m.name, Metrics.utf8 m.help, bytes m.kind, m.readings.map Reading.sample⟩

def MetricFamily.written (m : MetricFamily) : Bytes :=
  Metrics.familyText m.name m.help m.kind ++ m.readings.flatMap fun r => r.sample.text ++ [LF]

def MetricFamily.Fits (m : MetricFamily) : Prop :=
  ∀ r ∈ m.readings, belongs m.family r.name = true ∧ ∀ l ∈ r.labels, PlainLabel l

namespace Metrics

/-! ## What a page shows -/

def single (name help kind : String) (shown : Shown) : MetricFamily := ⟨name, help, kind, [⟨bytes name, [], shown⟩]⟩

instance (l : Bytes × Bytes) : Decidable (PlainLabel l) :=
  decidable_of_iff (EQUALS ∉ l.1 ∧ QUOTE ∉ l.2 ∧ LF ∉ l.1 ∧ LF ∉ l.2)
    ⟨fun h => ⟨h.1, h.2.1, h.2.2⟩, fun h => ⟨h.name, h.value, h.line⟩⟩

end Metrics

end Myself.Util
