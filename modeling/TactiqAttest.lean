import TactiqAttest.Hash.Sha256
import TactiqAttest.Programs.Interleaving
import TactiqAttest.Envelope.Bundle
import TactiqAttest.Envelope.Tpm
import TactiqAttest.Stop.Record
import TactiqAttest.Appraise.Gate1
import TactiqAttest.Stop.NvCertifyInfo
import TactiqAttest.Stop.Receipt
import TactiqAttest.Appraise.Appraisal
import TactiqAttest.Service.Http
import TactiqAttest.Programs.Contract
import TactiqAttest.Prover.NvCounter
import TactiqAttest.Prover.CounterAlloc
import TactiqAttest.Service.Port
import TactiqAttest.Service.Release
import TactiqAttest.Service.Core
import TactiqAttest.Service.Safety
import TactiqAttest.Service.Recover
import TactiqAttest.Tpm.Attestation
import TactiqAttest.Tpm.Runs
import TactiqAttest.Appraise.StopReceipt
import TactiqAttest.Appraise.StopInterval
import TactiqAttest.Service.Answers
import TactiqAttest.Service.Move
import TactiqAttest.Appraise.Roles
import TactiqAttest.Service.Handle
import TactiqAttest.Bytes.Bitmap
import TactiqAttest.Bytes.Chars
import TactiqAttest.Lists.SortDedup
import TactiqAttest.Prover.PcrSpec
import TactiqAttest.Appraise.Rim
import TactiqAttest.Appraise.RimAgreement
import TactiqAttest.Files.Disk
import TactiqAttest.Files.Staging
import TactiqAttest.Programs.Obligations
import TactiqAttest.Prover.Audit
import TactiqAttest.Prover.Publish
import TactiqAttest.Prover.AuditRuns
import TactiqAttest.Prover.AllOrNothing
import TactiqAttest.Prover.Provision
import TactiqAttest.Prover.ProvisionStops
import TactiqAttest.Appraise.AkRule
import TactiqAttest.Bytes.Hex
import TactiqAttest.Registrar.Certificate
import TactiqAttest.Registrar.Chain
import TactiqAttest.Registrar.Crl
import TactiqAttest.Registrar.MakeCred
import TactiqAttest.Registrar.Record
import TactiqAttest.Registrar.Commands
import TactiqAttest.Registrar.Runs
import TactiqAttest.Registrar.Registration
import TactiqAttest.Registrar.Activate
import TactiqAttest.Bytes.JsonText
import TactiqAttest.Registrar.RecordText
import TactiqAttest.Registrar.Consistency
import TactiqAttest.Bytes.Codec
import TactiqAttest.Stop.Formats
import TactiqAttest.Envelope.BundleCodec
import TactiqAttest.Stop.AttestGrammar
import TactiqAttest.Bytes.Cutting
import TactiqAttest.Service.ReleaseGrammar
import TactiqAttest.Service.HttpFraming
import TactiqAttest.Service.HttpRead
import TactiqAttest.Envelope.DeviceId
import TactiqAttest.Appraise.Identity
import TactiqAttest.Programs.Sequential
import TactiqAttest.Service.Faults
import TactiqAttest.Lists.LastOf
import TactiqAttest.Registrar.Critical
import TactiqAttest.Appraise.AkGrammar
import TactiqAttest.Bytes.Panicking
import TactiqAttest.Envelope.EccGrammar
import TactiqAttest.Prover.SameAk
import TactiqAttest.Appraise.Presented
import TactiqAttest.Appraise.RimPanics
import TactiqAttest.Prover.Spellings
import TactiqAttest.Prover.Stems
import TactiqAttest.Prover.Pruning
import TactiqAttest.Service.GatewayConfig
import TactiqAttest.Service.QuotedKeys
import TactiqAttest.Service.Timeouts
import TactiqAttest.Calendar.Gregorian
import TactiqAttest.Registrar.Calendar
import TactiqAttest.Programs.Interpretation
import TactiqAttest.Programs.Hosts
import TactiqAttest.Prover.Agent
import TactiqAttest.Prover.AgentOrder
import TactiqAttest.Prover.BootLog
import TactiqAttest.Prover.AgentDevice
import TactiqAttest.Prover.AgentRuns
import TactiqAttest.Prover.AgentLife
import TactiqAttest.Appraise.Attested
import TactiqAttest.Programs.Locking
import TactiqAttest.Service.StopIndex
import TactiqAttest.Service.Operator
import TactiqAttest.Service.OperatorIndex
import TactiqAttest.Service.OperatorLocked
import TactiqAttest.Service.OperatorRuns
