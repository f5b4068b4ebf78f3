import Wardx.Aggregation.HistoryBucket

/-!
# Envelopes

The shape of a sync request after parsing. A body of another shape (an unknown
key, a tuple of another length, a count that is not a natural number, a level
that is not one of four, an unreadable sketch) is refused by the validator and
never reaches the server's state, so the types below have no such values. What
the validator checks on values of the right shape is in the next module.

Attributes of events and logs stay JSON: the experiment and retention checks
read them field by field.
-/
namespace Wardx

open HistoryBucket HyperLogLog

structure Sdk where
  name : String
  version : String
deriving DecidableEq, Repr

structure Client where
  instanceId : String
  sessionId : String
  role : String
  appVersion : String
  environment : String
  platform : String
  os : Option String
  attributes : Option (List (String × Json))
deriving DecidableEq, Repr

structure CounterRow where
  name : String
  dimensions : Dimensions
  value : ℚ
deriving DecidableEq, Repr

structure GaugeRow where
  name : String
  dimensions : Dimensions
  value : ℚ
  timestamp : ℚ
deriving DecidableEq, Repr

structure Exemplar where
  value : ℚ
  attrs : Json
deriving DecidableEq, Repr

structure HistogramRow where
  name : String
  dimensions : Dimensions
  count : ℕ
  sum : ℚ
  min : ℚ
  max : ℚ
  buckets : List (ℚ × ℕ)
  exemplar : Option Exemplar
deriving DecidableEq, Repr

structure DistinctRow where
  name : String
  dimensions : Dimensions
  registers : Registers
deriving DecidableEq, Repr

structure Metrics where
  counters : List CounterRow
  gauges : List GaugeRow
  histograms : List HistogramRow
  distincts : Option (List DistinctRow)
deriving DecidableEq, Repr

structure EventRow where
  timestamp : ℚ
  name : String
  attrs : Json
deriving DecidableEq, Repr

structure LogRow where
  timestamp : ℚ
  level : LogLevel
  message : String
  attrs : Json
deriving DecidableEq, Repr

structure Frame where
  seq : ℕ
  frameFrom : ℚ
  frameTo : ℚ
  metrics : Metrics
  events : List EventRow
  logs : List LogRow
deriving DecidableEq, Repr

structure Envelope where
  protocol : ℕ
  project : String
  sdk : Sdk
  client : Client
  configVersion : ℕ
  configContext : Option String
  frames : List Frame
deriving DecidableEq, Repr

end Wardx
