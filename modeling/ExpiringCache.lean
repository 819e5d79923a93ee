import ExpiringCache.Session.Script
import ExpiringCache.Proofs.Consistency
import ExpiringCache.Proofs.Eviction
import ExpiringCache.Proofs.Deeds
import ExpiringCache.Proofs.Sections
import ExpiringCache.Proofs.Reachable
import ExpiringCache.Proofs.Settled
import ExpiringCache.Proofs.Uses
import ExpiringCache.Proofs.Sweeping
import ExpiringCache.Proofs.Errands
import ExpiringCache.Proofs.TimedMap
import ExpiringCache.Proofs.Refinement
import ExpiringCache.Proofs.Alike
import ExpiringCache.Proofs.Indistinct
import ExpiringCache.Proofs.Unobservable
import ExpiringCache.Proofs.Nested
import ExpiringCache.Proofs.Inclusion
import ExpiringCache.Proofs.Eager
import ExpiringCache.Proofs.Callers
import ExpiringCache.Proofs.Closing
import ExpiringCache.Proofs.OneKey
import ExpiringCache.Proofs.Stampede
import ExpiringCache.Proofs.Views
import ExpiringCache.Proofs.Fate
import ExpiringCache.Proofs.Contest
import ExpiringCache.Proofs.Families
import ExpiringCache.Proofs.Isolation
import ExpiringCache.Proofs.Balance
import ExpiringCache.Proofs.Clearance
import ExpiringCache.Proofs.Unlocked
import ExpiringCache.Proofs.Attempts
import ExpiringCache.Proofs.Listing
import ExpiringCache.Proofs.Revision
import ExpiringCache.Proofs.Batches
import ExpiringCache.Proofs.Interchange
import ExpiringCache.Proofs.Schedule
import ExpiringCache.Proofs.ClockRange
import ExpiringCache.Proofs.PairSet
import ExpiringCache.Proofs.LastTouches
import ExpiringCache.Proofs.Service
import ExpiringCache.Proofs.Strides
import ExpiringCache.Proofs.OneSweeper
