import PacketTrace.Report.Basic

/-!
# `Report.Metrics` — the figures derived from counts

Every quotient is guarded: where the denominator is zero the figure is zero.

## Contents
- `elapsed`, `throughput`, `percentage` and its two uses, `averagePerFlow`.
- `Report.totalKb` and `Report.throughputMbps`: figures of a report in larger units.
-/

namespace PacketTrace

namespace Metrics

/-- Seconds from the first time to the latest. It is zero when there is no first time, and also when the
    difference is negative or no number, as it is between two infinite times. -/
def elapsed (start : Option Float) (latest : Float) : Float :=
  match start with
  | none => 0.0
  | some first => if 0.0 < latest - first then latest - first else 0.0

/-- Bits per second. -/
def throughput (bytes : Nat) (seconds : Float) : Float :=
  if 0.0 < seconds then (Float.ofNat bytes * 8.0) / seconds else 0.0

/-- The percentage of a part in a whole. -/
def percentage (part whole : Nat) : Float :=
  if 0 < whole then (Float.ofNat part / Float.ofNat whole) * 100.0 else 0.0

/-- The share of retransmissions among data and acknowledgement packets. -/
def retransmissionRate (retransmitted packets : Nat) : Float := percentage retransmitted packets

/-- The share of parsed lines among the lines that are not blank. -/
def successRate (parsed failed : Nat) : Float := percentage parsed (parsed + failed)

/-- Packets per flow. -/
def averagePerFlow (packets flows : Nat) : Float :=
  if 0 < flows then Float.ofNat packets / Float.ofNat flows else 0.0

end Metrics

namespace Report

/-- The bytes of a report in units of 1024. -/
def totalKb (r : Report) : Float := Float.ofNat r.totalBytes / 1024.0

/-- The throughput of a report in millions of bits per second. -/
def throughputMbps (r : Report) : Float := r.throughputBps / 1000000.0

end Report

end PacketTrace
