import RankExchange.Lattice.Basic
import RankExchange.Endpoint.Collective
import RankExchange.Transport.Solo
import RankExchange.Transport.Rehearsal
import RankExchange.Cbor.Envelope
import RankExchange.World.Basic
import RankExchange.World.Schedule
import RankExchange.Decimal.Fixed
import RankExchange.Diffusion.Ring
import RankExchange.Worker
import RankExchange.CommandLine
import RankExchange.Main
import RankExchange.Trace
import RankExchange.Proofs.Lane
import RankExchange.Proofs.ScriptedPrograms
import RankExchange.Proofs.ScriptPositions
import RankExchange.Proofs.ScriptSteps
import RankExchange.Proofs.LaneAccounts
import RankExchange.Proofs.KnownResults
import RankExchange.Proofs.ScriptedRuns
import RankExchange.Proofs.UnconfirmedSends
import RankExchange.Proofs.CompatibleScripts
import RankExchange.Proofs.WorldInStep
import RankExchange.Proofs.Progress
import RankExchange.Proofs.Meeting
import RankExchange.Proofs.Agenda
import RankExchange.Proofs.Tables
import RankExchange.Proofs.ExchangeScripts
import RankExchange.Proofs.Rounds
import RankExchange.Proofs.FaithfulRounds
import RankExchange.Proofs.FreshGroups
import RankExchange.Proofs.RecurringRounds
import RankExchange.Proofs.CollectiveScripts
import RankExchange.Proofs.Collectives
import RankExchange.Proofs.RepeatedTags
import RankExchange.Proofs.TransportCalls
import RankExchange.Proofs.RoundHalves
import RankExchange.Proofs.AllOrNothing
import RankExchange.Proofs.RingNeighbors
import RankExchange.Proofs.RingHeat
import RankExchange.Proofs.RingScripts
import RankExchange.Proofs.Sessions
import RankExchange.Proofs.LeavingTogether
import RankExchange.Proofs.Decomposition
import RankExchange.Proofs.LaneBalance
import RankExchange.Proofs.ProbedReceives
import RankExchange.Proofs.Conservation
import RankExchange.Proofs.OneQueue
import RankExchange.Proofs.MessageReceipts
import RankExchange.Proofs.Confirmations
import RankExchange.Proofs.SingleRankRuns
import RankExchange.Proofs.UnseenChanges
import RankExchange.Proofs.TwoPaths
import RankExchange.Proofs.Posting
import RankExchange.Proofs.Services
import RankExchange.Proofs.Refusals
import RankExchange.Proofs.Confinement
import RankExchange.Proofs.Lifecycle
import RankExchange.Proofs.RestrictedGroups
import RankExchange.Proofs.ParedPrograms
import RankExchange.Proofs.RankTurns
import RankExchange.Proofs.ParedRuns
import RankExchange.Proofs.Subspaces
import RankExchange.Proofs.Separation
import RankExchange.Proofs.Truncation
import RankExchange.Proofs.WorkerJobs
import RankExchange.Proofs.LastMember
import RankExchange.Proofs.Arrivals
import RankExchange.Proofs.RegularMembers
import RankExchange.Proofs.QueueServing
import RankExchange.Proofs.Rejections
import RankExchange.Proofs.DrainedRounds
import RankExchange.Proofs.Reductions
import RankExchange.Proofs.RoundInProgress
import RankExchange.Proofs.SelfExchange
import RankExchange.Proofs.Coordinates
import RankExchange.Proofs.Shifts
import RankExchange.Proofs.ShiftLaws
import RankExchange.Proofs.LatticeNeighbors
import RankExchange.Proofs.TrialDivision
import RankExchange.Proofs.BalancedSides
import RankExchange.Proofs.LargePrimes
import RankExchange.Proofs.NearlySquare
import RankExchange.Proofs.EqualSides
import RankExchange.Proofs.TagSpaceSplits
import RankExchange.Proofs.CellBytes
import RankExchange.Proofs.Settlements
